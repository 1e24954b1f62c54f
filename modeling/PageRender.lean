import PageRender.CommandLine.Output
import PageRender.Frame.Interaction
import PageRender.Main
import PageRender.Task
import PageRender.Proofs.Outcome
import PageRender.Proofs.OrderedMap
import PageRender.Proofs.Text.Folding
import PageRender.Proofs.Text.Classes
import PageRender.Proofs.Markup.Descendants
import PageRender.Proofs.Markup.Actions
import PageRender.Proofs.Markup.Implied
import PageRender.Proofs.Markup.Names
import PageRender.Proofs.Markup.Moves
import PageRender.Proofs.Markup.Rooted
import PageRender.Proofs.Markup.Reading
import PageRender.Proofs.Markup.DocumentShape
import PageRender.Proofs.Document.Numbers
import PageRender.Proofs.Document.Parsed
import PageRender.Proofs.Markup.Joining
import PageRender.Proofs.Markup.TagText
import PageRender.Proofs.Markup.TextOrder
import PageRender.Proofs.Markup.Writing
import PageRender.Proofs.Markup.Places
import PageRender.Proofs.Markup.Rereading
import PageRender.Proofs.Markup.Canonical
import PageRender.Proofs.Markup.Fragments
import PageRender.Proofs.Document.Replacing
import PageRender.Proofs.Document.Forest
import PageRender.Proofs.Markup.Depths
import PageRender.Proofs.Markup.Sinking
import PageRender.Proofs.Script.InnerMarkup
import PageRender.Proofs.Leading
import PageRender.Proofs.Commuting
import PageRender.Proofs.Script.Effects
import PageRender.Proofs.Script.Compositions
import PageRender.Proofs.Script.Unseen
import PageRender.Proofs.Script.Hosting
import PageRender.Proofs.Script.Scopes
import PageRender.Proofs.Script.TopLevel
import PageRender.Proofs.Script.Bodies
import PageRender.Proofs.Script.Names
import PageRender.Proofs.Script.Holding
import PageRender.Proofs.Script.Flowing
import PageRender.Proofs.Script.References
import PageRender.Proofs.Script.Soundness
import PageRender.Proofs.Layout.Blocks
import PageRender.Proofs.Layout.Content
import PageRender.Proofs.Layout.Exact
import PageRender.Proofs.Layout.Stacking
import PageRender.Proofs.Layout.Hitting
import PageRender.Proofs.Layout.Breaking
import PageRender.Proofs.Layout.Heights
import PageRender.Proofs.Sheet.Seams
import PageRender.Proofs.Sheet.Written
import PageRender.Proofs.Sheet.Unfinished
import PageRender.Proofs.Sheet.Combined
import PageRender.Proofs.Sheet.Positions
import PageRender.Proofs.Sheet.Endings
import PageRender.Proofs.Style.Maps
import PageRender.Proofs.Style.TopDown
import PageRender.Proofs.Style.Computed
import PageRender.Proofs.Style.Winning
import PageRender.Proofs.Style.Resolved
import PageRender.Proofs.Script.Writing
import PageRender.Proofs.Script.Rereading
import PageRender.Proofs.Frame.Passing
import PageRender.Proofs.Frame.Following
import PageRender.Proofs.Frame.Spanning
import PageRender.Proofs.Frame.Drawing
import PageRender.Proofs.Frame.Trees
import PageRender.Proofs.Frame.Redrawing
import PageRender.Proofs.Script.Waiting
import PageRender.Proofs.Frame.Past
import PageRender.Proofs.Frame.Leaving
import PageRender.Proofs.Script.Ending
import PageRender.Proofs.Script.Numerals
import PageRender.Proofs.Script.Spelling
import PageRender.Proofs.Script.Faults
import PageRender.Proofs.Frame.Turns
import PageRender.Proofs.Sheet.Rows
import PageRender.Proofs.Style.Selecting
import PageRender.Proofs.Sheet.Pieces
import PageRender.Proofs.Sheet.Skipping
import PageRender.Proofs.Sheet.Comments
import PageRender.Proofs.Sheet.Quoting
import PageRender.Proofs.Sheet.Printed
import PageRender.Proofs.Markup.Omitted
import PageRender.Proofs.Markup.Comments
import PageRender.Proofs.Markup.Openings
import PageRender.Proofs.Markup.PlainContent
import PageRender.Proofs.Markup.FragmentTexts
import PageRender.Proofs.Script.Updating
import PageRender.Proofs.Script.OwnNames
import PageRender.Proofs.Script.Numbering
import PageRender.Proofs.Script.Listening
import PageRender.Proofs.Frame.Telling
import PageRender.Proofs.Document.Lasting
import PageRender.Proofs.Script.Lasting
import PageRender.Proofs.Frame.Clicking
import PageRender.Proofs.Frame.Focusing
import PageRender.Proofs.Frame.Typing
import PageRender.Proofs.Url.Decoding
import PageRender.Proofs.Frame.Submitting
import PageRender.Proofs.Layout.Weights
import PageRender.Proofs.Layout.Failing
import PageRender.Proofs.Script.Finding
import PageRender.Proofs.Script.Starting
import PageRender.Proofs.Frame.Starting
import PageRender.Proofs.Paint.Culling
import PageRender.Proofs.Paint.Colors
import PageRender.Proofs.Layout.Controls
import PageRender.Proofs.Paint.Rectangles
import PageRender.Proofs.Frame.Tracing
import PageRender.Proofs.Style.Dictionary
import PageRender.Proofs.Walking
