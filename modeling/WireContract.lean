import WireContract.Binary64.Basic
import WireContract.Binary64.Decimal
import WireContract.Binary64.Shortest
import WireContract.Bindings.Declaration
import WireContract.Bindings.Draft
import WireContract.Bindings.Generate
import WireContract.Bindings.TypeText
import WireContract.Bindings.Worklist
import WireContract.Command.FileTree
import WireContract.Command.Files
import WireContract.Command.Inputs
import WireContract.Command.Path
import WireContract.Command.Pattern
import WireContract.Command.Run
import WireContract.Command.Usage
import WireContract.Entries
import WireContract.Json.Basic
import WireContract.Json.Document
import WireContract.Json.Fault
import WireContract.Json.Printer
import WireContract.Json.Reader
import WireContract.Main
import WireContract.Manifest.Basic
import WireContract.Manifest.Fault
import WireContract.Manifest.Load
import WireContract.Manifest.Part
import WireContract.Manifest.Reader
import WireContract.Manifest.Record
import WireContract.Manifest.Resolve
import WireContract.Manifest.TypeForm
import WireContract.Proofs.Bindings.Alike
import WireContract.Proofs.Bindings.Blocks
import WireContract.Proofs.Bindings.Comments
import WireContract.Proofs.Bindings.Completion
import WireContract.Proofs.Bindings.Embedding
import WireContract.Proofs.Bindings.Emission
import WireContract.Proofs.Bindings.Extension
import WireContract.Proofs.Bindings.Layout
import WireContract.Proofs.Bindings.Meaning
import WireContract.Proofs.Bindings.Mentions
import WireContract.Proofs.Bindings.Nesting
import WireContract.Proofs.Bindings.OptionalMarks
import WireContract.Proofs.Bindings.Outlines
import WireContract.Proofs.Bindings.PhraseText
import WireContract.Proofs.Bindings.Phrases
import WireContract.Proofs.Bindings.Pieces
import WireContract.Proofs.Bindings.Queue
import WireContract.Proofs.Bindings.Reach
import WireContract.Proofs.Bindings.Renumbering
import WireContract.Proofs.Bindings.Settings
import WireContract.Proofs.Bindings.Success
import WireContract.Proofs.Bindings.TokenText
import WireContract.Proofs.Bindings.Tokens
import WireContract.Proofs.Bindings.Unfolding
import WireContract.Proofs.Bindings.Waves
import WireContract.Proofs.Command.Asking
import WireContract.Proofs.Command.Failing
import WireContract.Proofs.Command.Prediction
import WireContract.Proofs.Command.Writing
import WireContract.Proofs.InPlace.Draining
import WireContract.Proofs.InPlace.Registry
import WireContract.Proofs.InPlace.Table
import WireContract.Proofs.InPlace.WriteOnce
import WireContract.Proofs.Json.DistinctKeys
import WireContract.Proofs.Json.Equality
import WireContract.Proofs.Json.NumberValue
import WireContract.Proofs.Json.ScalarText
import WireContract.Proofs.Manifest.Closed
import WireContract.Proofs.Manifest.Declared
import WireContract.Proofs.Manifest.Layout
import WireContract.Proofs.Manifest.Names
import WireContract.Proofs.Manifest.Outlines
import WireContract.Proofs.Manifest.Placement
import WireContract.Proofs.Manifest.Reading
import WireContract.Proofs.Manifest.Renumbering
import WireContract.Proofs.Manifest.Resolution
import WireContract.Proofs.Outcome
import WireContract.Proofs.ParameterNames
import WireContract.Proofs.Registration
import WireContract.Proofs.Service.Client
import WireContract.Proofs.Service.Cookies
import WireContract.Proofs.Service.Handling
import WireContract.Proofs.Service.Independence
import WireContract.Proofs.Service.Locks
import WireContract.Proofs.Service.Quoting
import WireContract.Proofs.Service.SchemaFree
import WireContract.Proofs.Service.Windows
import WireContract.Proofs.Text.CamelCase
import WireContract.Proofs.Text.Lines
import WireContract.Proofs.Text.Paragraphs
import WireContract.Proofs.Type.AliasCycles
import WireContract.Proofs.Type.AliasSearch
import WireContract.Proofs.Type.Expressions
import WireContract.Proofs.Type.Fields
import WireContract.Proofs.Type.Inlining
import WireContract.Proofs.Type.Naming
import WireContract.Proofs.Type.Renaming
import WireContract.Proofs.Type.Scope
import WireContract.Proofs.Type.SearchEnd
import WireContract.Proofs.Type.Soundness
import WireContract.Proofs.Type.Substitution
import WireContract.Proofs.Type.Unfolding
import WireContract.Proofs.Type.Writing
import WireContract.Proofs.Wire.Blame
import WireContract.Proofs.Wire.Closed
import WireContract.Proofs.Wire.Concurrence
import WireContract.Proofs.Wire.Cutoff
import WireContract.Proofs.Wire.InStep
import WireContract.Proofs.Wire.Inhabitation
import WireContract.Proofs.Wire.KeyOrder
import WireContract.Proofs.Wire.Levels
import WireContract.Proofs.Wire.Membership
import WireContract.Proofs.Wire.NamedParameter
import WireContract.Proofs.Wire.Omissible
import WireContract.Proofs.Wire.Omission
import WireContract.Proofs.Wire.Parameters
import WireContract.Proofs.Wire.Pinpoint
import WireContract.Proofs.Wire.Places
import WireContract.Proofs.Wire.RecordKeys
import WireContract.Proofs.Wire.Repetition
import WireContract.Proofs.Wire.SchemaFree
import WireContract.Proofs.Wire.Spelling
import WireContract.Proofs.Wire.Taking
import WireContract.Proofs.Wire.Trimming
import WireContract.Registry
import WireContract.Service.Credentials
import WireContract.Service.Dispatch
import WireContract.Service.Fault
import WireContract.Service.RateLimit
import WireContract.Text.Blank
import WireContract.Text.Cut
import WireContract.Text.Identifier
import WireContract.Text.Position
import WireContract.Text.Shown
import WireContract.Text.Words
import WireContract.Type.AliasCycle
import WireContract.Type.Basic
import WireContract.Type.Definition
import WireContract.Type.Fault
import WireContract.Type.Shown
import WireContract.Type.Table
import WireContract.Wire.Check
import WireContract.Wire.Codec
import WireContract.Wire.Fault
