import ScriptBindings.Binding.Adapt
import ScriptBindings.Binding.Decide
import ScriptBindings.Binding.Key
import ScriptBindings.Binding.Plan
import ScriptBindings.Binding.Strategy
import ScriptBindings.Compound.Callable
import ScriptBindings.Compound.Class
import ScriptBindings.Compound.Extraction
import ScriptBindings.Compound.Files
import ScriptBindings.Compound.Item
import ScriptBindings.Compound.Namespace
import ScriptBindings.Compound.Reading
import ScriptBindings.Config
import ScriptBindings.CppType.Basic
import ScriptBindings.CppType.Brackets
import ScriptBindings.CppType.Error
import ScriptBindings.CppType.Printer
import ScriptBindings.CppType.Reader
import ScriptBindings.CppType.Repair
import ScriptBindings.CppType.Substitute
import ScriptBindings.CppType.Words
import ScriptBindings.Dict
import ScriptBindings.Directive.Flags
import ScriptBindings.Directive.Hint
import ScriptBindings.Directive.Merge
import ScriptBindings.Directive.Reader
import ScriptBindings.Directive.Surrogate
import ScriptBindings.Docs.Export
import ScriptBindings.Docs.Search
import ScriptBindings.Docs.Url
import ScriptBindings.Doxyfile
import ScriptBindings.Emit.Files
import ScriptBindings.Emit.Loader
import ScriptBindings.Emit.Names
import ScriptBindings.Entity.Callable
import ScriptBindings.Entity.Database
import ScriptBindings.Entity.Slot
import ScriptBindings.Fault
import ScriptBindings.Flavour
import ScriptBindings.Json.Value
import ScriptBindings.Location
import ScriptBindings.Main
import ScriptBindings.Name.Casing
import ScriptBindings.Name.Encoded
import ScriptBindings.Name.Scope
import ScriptBindings.Path
import ScriptBindings.Pipeline
import ScriptBindings.Proofs.Binding.Adaptation
import ScriptBindings.Proofs.Binding.ConstSpelling
import ScriptBindings.Proofs.Binding.Construction
import ScriptBindings.Proofs.Binding.Exclusion
import ScriptBindings.Proofs.Binding.Legality
import ScriptBindings.Proofs.Binding.Lookup
import ScriptBindings.Proofs.Binding.Operators
import ScriptBindings.Proofs.Binding.Planning
import ScriptBindings.Proofs.Binding.Prefixes
import ScriptBindings.Proofs.Binding.ReferenceMark
import ScriptBindings.Proofs.Binding.SharedSlots
import ScriptBindings.Proofs.Binding.Spelling
import ScriptBindings.Proofs.Compound.Agreement
import ScriptBindings.Proofs.Compound.Alike
import ScriptBindings.Proofs.Compound.Callables
import ScriptBindings.Proofs.Compound.DocumentOrder
import ScriptBindings.Proofs.Compound.Draft
import ScriptBindings.Proofs.Compound.Faults
import ScriptBindings.Proofs.Compound.Filing
import ScriptBindings.Proofs.Compound.Frozen
import ScriptBindings.Proofs.Compound.GroupFlags
import ScriptBindings.Proofs.Compound.Keys
import ScriptBindings.Proofs.Compound.Locality
import ScriptBindings.Proofs.Compound.PureVirtual
import ScriptBindings.Proofs.Compound.Removal
import ScriptBindings.Proofs.Compound.Selection
import ScriptBindings.Proofs.Compound.Settling
import ScriptBindings.Proofs.Compound.Shadow
import ScriptBindings.Proofs.Compound.Shelves
import ScriptBindings.Proofs.Compound.Stored
import ScriptBindings.Proofs.Compound.TemplateScope
import ScriptBindings.Proofs.Compound.Unreadable
import ScriptBindings.Proofs.Compound.Visibility
import ScriptBindings.Proofs.CppType.Canonical
import ScriptBindings.Proofs.CppType.ConstSpelling
import ScriptBindings.Proofs.CppType.Depth
import ScriptBindings.Proofs.CppType.Growth
import ScriptBindings.Proofs.CppType.Identifiers
import ScriptBindings.Proofs.CppType.Legible
import ScriptBindings.Proofs.CppType.Nesting
import ScriptBindings.Proofs.CppType.Qualifiers
import ScriptBindings.Proofs.CppType.Reading
import ScriptBindings.Proofs.CppType.Repair
import ScriptBindings.Proofs.CppType.Reparse
import ScriptBindings.Proofs.CppType.Splitting
import ScriptBindings.Proofs.CppType.Stripping
import ScriptBindings.Proofs.CppType.Substitution
import ScriptBindings.Proofs.CppType.Tokens
import ScriptBindings.Proofs.CppType.Unbalanced
import ScriptBindings.Proofs.Dict
import ScriptBindings.Proofs.Directive.Elsewhere
import ScriptBindings.Proofs.Directive.Hints
import ScriptBindings.Proofs.Directive.Interleaving
import ScriptBindings.Proofs.Directive.Merging
import ScriptBindings.Proofs.Directive.Receiving
import ScriptBindings.Proofs.Emit.Arrangement
import ScriptBindings.Proofs.Emit.Exclusion
import ScriptBindings.Proofs.Emit.Places
import ScriptBindings.Proofs.Entity.Grouping
import ScriptBindings.Proofs.Entity.Slots
import ScriptBindings.Proofs.Except
import ScriptBindings.Proofs.FirstOccurrence
import ScriptBindings.Proofs.Name.Encoding
import ScriptBindings.Proofs.Name.RunTogether
import ScriptBindings.Proofs.Name.Segments
import ScriptBindings.Proofs.Path
import ScriptBindings.Proofs.Path.Folding
import ScriptBindings.Proofs.Resolve.Abstractness
import ScriptBindings.Proofs.Resolve.Bases
import ScriptBindings.Proofs.Resolve.BindNames
import ScriptBindings.Proofs.Resolve.CopiedMethods
import ScriptBindings.Proofs.Resolve.Expansion
import ScriptBindings.Proofs.Resolve.Flattening
import ScriptBindings.Proofs.Resolve.HandedDown
import ScriptBindings.Proofs.Resolve.Idempotence
import ScriptBindings.Proofs.Resolve.Leftover
import ScriptBindings.Proofs.Resolve.ReceivedHooks
import ScriptBindings.Proofs.Resolve.Replacement
import ScriptBindings.Proofs.Resolve.Specialisation
import ScriptBindings.Proofs.Resolve.Traversal
import ScriptBindings.Proofs.Resolve.Twins
import ScriptBindings.Proofs.Resolve.Untemplated
import ScriptBindings.Proofs.Store.Writing
import ScriptBindings.Proofs.Symbol.Registration
import ScriptBindings.Proofs.Template
import ScriptBindings.Proofs.Text.Cutting
import ScriptBindings.Proofs.Text.Spacing
import ScriptBindings.Resolve.All
import ScriptBindings.Resolve.Inheritance
import ScriptBindings.Resolve.Template
import ScriptBindings.Store.Basic
import ScriptBindings.Store.Memory
import ScriptBindings.Symbol.Index
import ScriptBindings.Template
import ScriptBindings.Text.Blank
import ScriptBindings.Text.Cut
import ScriptBindings.Text.Number
import ScriptBindings.Text.Printable
import ScriptBindings.Text.Quoted
import ScriptBindings.Toml.Draft
import ScriptBindings.Toml.Lexeme
import ScriptBindings.Toml.Reader
import ScriptBindings.Toml.Value
import ScriptBindings.Xml.Chars
import ScriptBindings.Xml.Query
import ScriptBindings.Xml.Reader
import ScriptBindings.Xml.Token
import ScriptBindings.Xml.Tree
