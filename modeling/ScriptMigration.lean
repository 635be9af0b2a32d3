import ScriptMigration.Cache.Recent
import ScriptMigration.Cache.Weak
import ScriptMigration.Descriptor.Basic
import ScriptMigration.Descriptor.Binding
import ScriptMigration.Descriptor.External
import ScriptMigration.Descriptor.Merge
import ScriptMigration.Descriptor.Primitive
import ScriptMigration.Diagnostic
import ScriptMigration.Draft.Basic
import ScriptMigration.Draft.Outline
import ScriptMigration.Grammar.Attachment
import ScriptMigration.Grammar.Declaration
import ScriptMigration.Grammar.Expression
import ScriptMigration.Grammar.Fault
import ScriptMigration.Grammar.Module
import ScriptMigration.Grammar.Reader
import ScriptMigration.Grammar.Statement
import ScriptMigration.Include.Graph
import ScriptMigration.Include.Header
import ScriptMigration.Include.Link
import ScriptMigration.Migration.Basic
import ScriptMigration.Migration.Migrate
import ScriptMigration.Migration.ModuleCache
import ScriptMigration.Migration.Session
import ScriptMigration.Number.Binary64
import ScriptMigration.Number.Core
import ScriptMigration.Number.Decimal
import ScriptMigration.Options
import ScriptMigration.Output.Imports
import ScriptMigration.Output.Resources
import ScriptMigration.Output.Static
import ScriptMigration.Proofs.Cache.Recent
import ScriptMigration.Proofs.Cache.Weak
import ScriptMigration.Proofs.Descriptor.Absorb
import ScriptMigration.Proofs.Descriptor.Ascent
import ScriptMigration.Proofs.Descriptor.Follow
import ScriptMigration.Proofs.Descriptor.Join
import ScriptMigration.Proofs.Descriptor.Merge
import ScriptMigration.Proofs.Draft.Formed
import ScriptMigration.Proofs.Draft.Kinds
import ScriptMigration.Proofs.Draft.Links
import ScriptMigration.Proofs.Draft.Migrating
import ScriptMigration.Proofs.Draft.Prepared
import ScriptMigration.Proofs.Draft.References
import ScriptMigration.Proofs.Grammar.Bounds
import ScriptMigration.Proofs.Grammar.ClassComments
import ScriptMigration.Proofs.Grammar.Comments
import ScriptMigration.Proofs.Grammar.FaultOrder
import ScriptMigration.Proofs.Grammar.Folding
import ScriptMigration.Proofs.Grammar.Grouping
import ScriptMigration.Proofs.Grammar.LineOrder
import ScriptMigration.Proofs.Grammar.Modules
import ScriptMigration.Proofs.Grammar.Numbering
import ScriptMigration.Proofs.Grammar.Numerals
import ScriptMigration.Proofs.Grammar.Shaping
import ScriptMigration.Proofs.Grammar.Statements
import ScriptMigration.Proofs.Grammar.Termination
import ScriptMigration.Proofs.Grammar.Written
import ScriptMigration.Proofs.Include.Dependencies
import ScriptMigration.Proofs.Include.Graph
import ScriptMigration.Proofs.Include.Leading
import ScriptMigration.Proofs.Include.Link
import ScriptMigration.Proofs.Include.Names
import ScriptMigration.Proofs.Include.Order
import ScriptMigration.Proofs.Include.Readers
import ScriptMigration.Proofs.Include.Returns
import ScriptMigration.Proofs.Include.SelfInclusion
import ScriptMigration.Proofs.List.Repeats
import ScriptMigration.Proofs.Migration.Batch
import ScriptMigration.Proofs.Migration.Caching
import ScriptMigration.Proofs.Migration.Complete
import ScriptMigration.Proofs.Migration.History
import ScriptMigration.Proofs.Migration.MemberCache
import ScriptMigration.Proofs.Migration.Prepared
import ScriptMigration.Proofs.Migration.References
import ScriptMigration.Proofs.Migration.Run
import ScriptMigration.Proofs.Output.Imports
import ScriptMigration.Proofs.Output.PrintedNames
import ScriptMigration.Proofs.Output.Resources
import ScriptMigration.Proofs.Output.Static
import ScriptMigration.Proofs.Reshape.Accessors
import ScriptMigration.Proofs.Reshape.Comments
import ScriptMigration.Proofs.Reshape.Creation
import ScriptMigration.Proofs.Reshape.Hooks
import ScriptMigration.Proofs.Reshape.Lifecycle
import ScriptMigration.Proofs.Reshape.Localization
import ScriptMigration.Proofs.Reshape.Property
import ScriptMigration.Proofs.Reshape.ReturnLinks
import ScriptMigration.Proofs.Reshape.ReturnMeaning
import ScriptMigration.Proofs.Reshape.ReturnNames
import ScriptMigration.Proofs.Reshape.ReturnReferences
import ScriptMigration.Proofs.Reshape.ReturnShape
import ScriptMigration.Proofs.Reshape.ReturnValue
import ScriptMigration.Proofs.Reshape.SetterValue
import ScriptMigration.Proofs.Resolution.Cacheless
import ScriptMigration.Proofs.Resolution.Convergence
import ScriptMigration.Proofs.Resolution.Declaring
import ScriptMigration.Proofs.Resolution.Echoing
import ScriptMigration.Proofs.Resolution.Implicit
import ScriptMigration.Proofs.Resolution.Indexing
import ScriptMigration.Proofs.Resolution.LastSweep
import ScriptMigration.Proofs.Resolution.Noted
import ScriptMigration.Proofs.Resolution.Obligations
import ScriptMigration.Proofs.Resolution.Procedures
import ScriptMigration.Proofs.Resolution.Reading
import ScriptMigration.Proofs.Resolution.References
import ScriptMigration.Proofs.Resolution.Referred
import ScriptMigration.Proofs.Resolution.Reporting
import ScriptMigration.Proofs.Resolution.Resolved
import ScriptMigration.Proofs.Resolution.Settling
import ScriptMigration.Proofs.Resolution.Start
import ScriptMigration.Proofs.Resolution.Stillness
import ScriptMigration.Proofs.Resolution.Sweep
import ScriptMigration.Proofs.Resolution.Taken
import ScriptMigration.Proofs.Resolution.Touch
import ScriptMigration.Proofs.Resolution.Touches
import ScriptMigration.Proofs.Resolution.Visit
import ScriptMigration.Proofs.Resolution.WithSubject
import ScriptMigration.Proofs.Scope.Lookups
import ScriptMigration.Proofs.Script.Store
import ScriptMigration.Proofs.SymbolTable.Registered
import ScriptMigration.Proofs.Syntax.Layers
import ScriptMigration.Proofs.Syntax.Places
import ScriptMigration.Proofs.Syntax.Rebuild
import ScriptMigration.Proofs.Syntax.Settings
import ScriptMigration.Proofs.Syntax.Tally
import ScriptMigration.Proofs.Syntax.Tree
import ScriptMigration.Proofs.Syntax.Walks
import ScriptMigration.Proofs.Text.Trim
import ScriptMigration.Proofs.Token.Case
import ScriptMigration.Proofs.Token.Lossless
import ScriptMigration.Proofs.Token.Opening
import ScriptMigration.Reshape.Creation
import ScriptMigration.Reshape.Lifecycle
import ScriptMigration.Reshape.Localization
import ScriptMigration.Reshape.Property
import ScriptMigration.Reshape.ReturnValue
import ScriptMigration.Reshape.SetterValue
import ScriptMigration.Resolution.Declared
import ScriptMigration.Resolution.Lookup
import ScriptMigration.Resolution.Resolve
import ScriptMigration.Resolution.Settle
import ScriptMigration.Resolution.State
import ScriptMigration.Resolution.Surroundings
import ScriptMigration.Resolution.Sweep
import ScriptMigration.Resolution.Typing
import ScriptMigration.Scope.Members
import ScriptMigration.Script.Key
import ScriptMigration.Script.Store
import ScriptMigration.SymbolTable.Basic
import ScriptMigration.SymbolTable.Entry
import ScriptMigration.SymbolTable.Namespace
import ScriptMigration.SymbolTable.Registration
import ScriptMigration.SymbolTable.Standard
import ScriptMigration.Syntax.Descent
import ScriptMigration.Syntax.Marks
import ScriptMigration.Syntax.Node
import ScriptMigration.Syntax.Operator
import ScriptMigration.Syntax.Outline
import ScriptMigration.Syntax.Parts
import ScriptMigration.Syntax.Shape
import ScriptMigration.Syntax.Walk
import ScriptMigration.Text.Blank
import ScriptMigration.Text.CharRanges
import ScriptMigration.Text.Digest
import ScriptMigration.Text.Name
import ScriptMigration.Text.Quoted
import ScriptMigration.Text.Span
import ScriptMigration.Token.Kind
import ScriptMigration.Token.Lexer
