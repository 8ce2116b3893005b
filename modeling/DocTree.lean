import DocTree.Main
import DocTree.Schema
import DocTree.Proofs.Edit.Splice
import DocTree.Proofs.Plan.Apart
import DocTree.Proofs.Plan.FirstRun
import DocTree.Proofs.Run.Again
import DocTree.Proofs.Edit.Within
import DocTree.Proofs.Plan.Within
import DocTree.Proofs.FileSystem.Landing
import DocTree.Proofs.Load.Separate
import DocTree.Proofs.Plan.Named
import DocTree.Proofs.Run.Whole
import DocTree.Proofs.Markdown.Cut
import DocTree.Proofs.Markdown.Renumber
import DocTree.Proofs.Markdown.Swallow
import DocTree.Proofs.Markdown.Lines
import DocTree.Proofs.Markdown.LinkList
import DocTree.Proofs.Markdown.Between
import DocTree.Proofs.Render.OneLine
import DocTree.Proofs.Plan.Written
import DocTree.Proofs.Plan.Found
import DocTree.Proofs.Plan.Outline
import DocTree.Proofs.Plan.Cover
import DocTree.Proofs.Plan.Links
import DocTree.Proofs.Plan.Forged
import DocTree.Proofs.Batch.Settle
import DocTree.Proofs.Batch.Race
import DocTree.Proofs.Plan.Respell
import DocTree.Proofs.Plan.Breaks
import DocTree.Proofs.Edit.Plain
import DocTree.Proofs.Edit.Swap
import DocTree.Proofs.Load.Aside
import DocTree.Proofs.Section.Listed
import DocTree.Proofs.Plan.Block
import DocTree.Proofs.Load.Entries
import DocTree.Proofs.Text.Split
import DocTree.Proofs.Batch.Exact
import DocTree.Proofs.Render.Target
import DocTree.Proofs.Render.ReadBack
import DocTree.Proofs.Section.Anchor
import DocTree.Proofs.Section.Made
import DocTree.Proofs.Load.Titled
import DocTree.Proofs.Schema.Normal
import DocTree.Proofs.Plan.Location
import DocTree.Proofs.Edit.Wide
