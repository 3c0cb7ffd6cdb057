import BuildPlan.Collection.Dictionary
import BuildPlan.Collection.NameSet
import BuildPlan.Collection.OrderedSet
import BuildPlan.Condition.Basic
import BuildPlan.Condition.Parse
import BuildPlan.Configuration
import BuildPlan.Failure
import BuildPlan.Files.Path
import BuildPlan.Files.Select
import BuildPlan.Files.System
import BuildPlan.Files.Tree
import BuildPlan.Files.Walk
import BuildPlan.Grammar.Document
import BuildPlan.Grammar.Lexeme
import BuildPlan.Grammar.Parse
import BuildPlan.Grammar.Rule
import BuildPlan.Grammar.Value
import BuildPlan.Inheritance
import BuildPlan.Logged
import BuildPlan.Module
import BuildPlan.Pattern.Basic
import BuildPlan.Pattern.Glob
import BuildPlan.Pattern.Match
import BuildPlan.Pattern.Regex.Basic
import BuildPlan.Pattern.Regex.Bracketed
import BuildPlan.Pattern.Regex.Bytes
import BuildPlan.Pattern.Regex.Ends
import BuildPlan.Pattern.Regex.Named
import BuildPlan.Pattern.Regex.Parse
import BuildPlan.Pattern.Regex.Reader
import BuildPlan.Pattern.Regex.Size
import BuildPlan.Project
import BuildPlan.Property.Basic
import BuildPlan.Property.Registry
import BuildPlan.Settings.Basic
import BuildPlan.Settings.Compile
import BuildPlan.Settings.Walk
import BuildPlan.Solution
import BuildPlan.Syntax.Document
import BuildPlan.Syntax.Value
import BuildPlan.Template
import BuildPlan.Text.Age
import BuildPlan.Text.Blank
import BuildPlan.Text.Break
import BuildPlan.Text.Category
import BuildPlan.Text.CharSet
import BuildPlan.Text.Folding
import BuildPlan.Text.Lines
import BuildPlan.Text.Position
import BuildPlan.Text.Property.Derived
import BuildPlan.Text.Property.Listed
import BuildPlan.Text.Script
import BuildPlan.Uuid.Basic
import BuildPlan.Uuid.Digest
import BuildPlan.Variable.Bindings
import BuildPlan.Variable.Expansion
import BuildPlan.Xml.Fragment
import BuildPlan.Xml.Lexeme
import BuildPlan.Proofs.Collection.Dictionary
import BuildPlan.Proofs.Collection.Rewriting
import BuildPlan.Proofs.Collection.Occurrences
import BuildPlan.Proofs.Variable.Rereading
import BuildPlan.Proofs.Variable.Stages
import BuildPlan.Proofs.Grammar.Reading
import BuildPlan.Proofs.Grammar.RoundTrip
import BuildPlan.Proofs.Grammar.Lexemes
import BuildPlan.Proofs.Grammar.Consuming
import BuildPlan.Proofs.Condition.Spelling
import BuildPlan.Proofs.Grammar.Identifiers
import BuildPlan.Proofs.Grammar.Values
import BuildPlan.Proofs.Grammar.Properties
import BuildPlan.Proofs.Grammar.Headings
import BuildPlan.Proofs.Grammar.Groups
import BuildPlan.Proofs.Grammar.Elements
import BuildPlan.Proofs.Grammar.Documents
import BuildPlan.Proofs.Grammar.Names
import BuildPlan.Proofs.Files.Names
import BuildPlan.Proofs.Files.Spelling
import BuildPlan.Proofs.Inheritance.Schedule
import BuildPlan.Proofs.Inheritance.Meaning
import BuildPlan.Proofs.Inheritance.Cycles
import BuildPlan.Proofs.Settings.Runs
import BuildPlan.Proofs.Settings.Keeping
import BuildPlan.Proofs.Settings.Changes
import BuildPlan.Proofs.Settings.Flattening
import BuildPlan.Proofs.Settings.Deferring
import BuildPlan.Proofs.Settings.Fitting
import BuildPlan.Proofs.Settings.Typing
import BuildPlan.Proofs.Solution.Environment
import BuildPlan.Proofs.Solution.Stages
import BuildPlan.Proofs.Solution.Configurations
import BuildPlan.Proofs.Solution.Identity
import BuildPlan.Proofs.Solution.Blocks
import BuildPlan.Proofs.Solution.Opening
import BuildPlan.Proofs.Solution.Keys
import BuildPlan.Proofs.Solution.Cache
import BuildPlan.Proofs.Solution.Filtering
import BuildPlan.Proofs.Solution.Selection
import BuildPlan.Proofs.Solution.Shadowing
import BuildPlan.Proofs.Settings.Prepending
import BuildPlan.Proofs.Solution.Declarations
import BuildPlan.Proofs.Solution.Binding
import BuildPlan.Proofs.Solution.Modules
import BuildPlan.Proofs.Settings.Admitting
import BuildPlan.Proofs.Solution.Admission
import BuildPlan.Proofs.Solution.Coherence
import BuildPlan.Proofs.Solution.Omission
import BuildPlan.Proofs.Xml.Reading
import BuildPlan.Proofs.Xml.Splicing
import BuildPlan.Proofs.Xml.Items
import BuildPlan.Proofs.Xml.Tags
import BuildPlan.Proofs.Xml.Open
import BuildPlan.Proofs.Variable.Splicing
import BuildPlan.Proofs.Grammar.Fragments
import BuildPlan.Proofs.Settings.Markup
import BuildPlan.Proofs.Solution.Markup
import BuildPlan.Proofs.Settings.Histories
import BuildPlan.Proofs.Grammar.Extending
import BuildPlan.Proofs.Grammar.Wrapping
import BuildPlan.Proofs.Grammar.Unclosed
import BuildPlan.Proofs.Solution.Wrapping
import BuildPlan.Proofs.Condition.Judging
import BuildPlan.Proofs.Settings.Constants
import BuildPlan.Proofs.Pattern.Globs
import BuildPlan.Proofs.Files.Dotted
import BuildPlan.Proofs.Solution.Loading
import BuildPlan.Proofs.Solution.Consistency
import BuildPlan.Proofs.Solution.Uniqueness
import BuildPlan.Proofs.Grammar.Enclosed
import BuildPlan.Proofs.Settings.WriteOnce
import BuildPlan.Proofs.Settings.Causes
import BuildPlan.Proofs.Settings.Supplying
import BuildPlan.Proofs.Solution.Supplying
import BuildPlan.Proofs.Files.Reaching
import BuildPlan.Proofs.Files.Selecting
import BuildPlan.Proofs.Solution.Generated
import BuildPlan.Proofs.Variable.Escaping
import BuildPlan.Proofs.Text.Dedenting
import BuildPlan.Proofs.Grammar.Failing
