import StackScript.Command
import StackScript.Corpus.Workload
import StackScript.Grammar.Indexed
import StackScript.Main
import StackScript.Script
import StackScript.Series
import StackScript.Proofs.Depth.Shortened
import StackScript.Proofs.Evaluation.Runs
import StackScript.Proofs.Labels.Distinct
import StackScript.Proofs.Shortening.Runs
import StackScript.Proofs.OnePass.Agreement
import StackScript.Proofs.Flow.Shortened
import StackScript.Proofs.Grammar.ReadBack
import StackScript.Proofs.Printing.RoundTrip
import StackScript.Proofs.Ending.FinalNewline
import StackScript.Proofs.Spacing.Stages
import StackScript.Proofs.Acceptance.Emission
import StackScript.Proofs.Acceptance.Operands
import StackScript.Proofs.Binding.Builtins
import StackScript.Proofs.Boundary.Composition
import StackScript.Proofs.Boundary.Failures
import StackScript.Proofs.Layout.Stretches
import StackScript.Proofs.Layout.Written
import StackScript.Proofs.Precedence.Grouping
import StackScript.Proofs.Precedence.Reading
import StackScript.Proofs.Commas.Outcome
import StackScript.Proofs.Commas.Repetition
import StackScript.Proofs.Commas.Rules
import StackScript.Proofs.Commas.Optional
import StackScript.Proofs.Layout.Contents
import StackScript.Proofs.Temporaries.Scope
import StackScript.Proofs.Temporaries.Names
import StackScript.Proofs.Temporaries.Fresh
import StackScript.Proofs.Listing.Legible
import StackScript.Proofs.Census.Nodes
import StackScript.Proofs.Texts.Literals
import StackScript.Proofs.Lists.Literals
import StackScript.Proofs.Recursion.Loops
import StackScript.Proofs.Recursion.Indices
import StackScript.Proofs.Labels.Rejoining
import StackScript.Proofs.Labels.Origins
