import BuildScript.Bytecode.Checksum
import BuildScript.Bytecode.ClassFile
import BuildScript.Bytecode.CodeBuffer
import BuildScript.Bytecode.ConstantPool
import BuildScript.Bytecode.Instr
import BuildScript.Bytecode.LittleEndian
import BuildScript.Bytecode.Opcode
import BuildScript.Bytecode.Verification
import BuildScript.Bytecode.Wire
import BuildScript.Compile.Candidates
import BuildScript.Compile.ClassBuilder
import BuildScript.Compile.ClassNode
import BuildScript.Compile.CodeGeneration
import BuildScript.Compile.Lookup
import BuildScript.Compile.Message
import BuildScript.Compile.Phase
import BuildScript.Compile.Prefilter
import BuildScript.Compile.Rendering
import BuildScript.Compile.Resolution
import BuildScript.Compile.ScriptLoader
import BuildScript.Compile.Settings
import BuildScript.Compile.Unit
import BuildScript.Files.Path
import BuildScript.Files.Tree
import BuildScript.Loading.Cache
import BuildScript.Loading.Filter
import BuildScript.Loading.LoadError
import BuildScript.Loading.Search
import BuildScript.Loading.World
import BuildScript.Machine.Class
import BuildScript.Machine.Execution
import BuildScript.Machine.Member
import BuildScript.Machine.Operators
import BuildScript.Machine.RunError
import BuildScript.Machine.Value
import BuildScript.Number.Binary64
import BuildScript.Number.Shortest
import BuildScript.Proofs.Bytecode.Assembling
import BuildScript.Proofs.Bytecode.Bursts
import BuildScript.Proofs.Bytecode.Conformance
import BuildScript.Proofs.Bytecode.Corruption
import BuildScript.Proofs.Bytecode.Layout
import BuildScript.Proofs.Bytecode.Readers
import BuildScript.Proofs.Bytecode.RoundTrip
import BuildScript.Proofs.Bytecode.StackMap
import BuildScript.Proofs.Bytecode.Truncation
import BuildScript.Proofs.Bytecode.WellFormed
import BuildScript.Proofs.Compile.AcceptedNodes
import BuildScript.Proofs.Compile.CandidateNames
import BuildScript.Proofs.Compile.CodeRuns
import BuildScript.Proofs.Compile.ConventionalNames
import BuildScript.Proofs.Compile.Correctness
import BuildScript.Proofs.Compile.Emission
import BuildScript.Proofs.Compile.EmittedOperands
import BuildScript.Proofs.Compile.EmittedVerifies
import BuildScript.Proofs.Compile.Evaluation
import BuildScript.Proofs.Compile.FailingPhases
import BuildScript.Proofs.Compile.FirstOccurrences
import BuildScript.Proofs.Compile.HeightRuns
import BuildScript.Proofs.Compile.InMemory
import BuildScript.Proofs.Compile.LocalNames
import BuildScript.Proofs.Compile.LoopFree
import BuildScript.Proofs.Compile.NotedCalls
import BuildScript.Proofs.Compile.PhaseRuns
import BuildScript.Proofs.Compile.PoolGrowth
import BuildScript.Proofs.Compile.PoolIndices
import BuildScript.Proofs.Compile.PoolSize
import BuildScript.Proofs.Compile.Prefiltering
import BuildScript.Proofs.Compile.ResolutionRule
import BuildScript.Proofs.Compile.ResolvedNames
import BuildScript.Proofs.Compile.Resolving
import BuildScript.Proofs.Compile.SeparateSources
import BuildScript.Proofs.Compile.Simulation
import BuildScript.Proofs.Compile.SingleSource
import BuildScript.Proofs.Compile.SourcePlaces
import BuildScript.Proofs.Compile.StackHeights
import BuildScript.Proofs.Compile.Stages
import BuildScript.Proofs.Compile.StampedClasses
import BuildScript.Proofs.Files.ClassPaths
import BuildScript.Proofs.Files.Components
import BuildScript.Proofs.Files.Directories
import BuildScript.Proofs.Files.Extensions
import BuildScript.Proofs.Files.Joins
import BuildScript.Proofs.Files.Operations
import BuildScript.Proofs.Files.Places
import BuildScript.Proofs.Files.WellFormed
import BuildScript.Proofs.Files.Writing
import BuildScript.Proofs.Loading.CachedLoaders
import BuildScript.Proofs.Loading.DefinedClasses
import BuildScript.Proofs.Loading.FilteredChains
import BuildScript.Proofs.Loading.NamedClasses
import BuildScript.Proofs.Loading.NewLoaders
import BuildScript.Proofs.Loading.SearchBounds
import BuildScript.Proofs.Loading.Searches
import BuildScript.Proofs.Loading.SuperclassCycles
import BuildScript.Proofs.Loading.Verdicts
import BuildScript.Proofs.Machine.AssembledCode
import BuildScript.Proofs.Machine.Crashes
import BuildScript.Proofs.Machine.ForwardRuns
import BuildScript.Proofs.Machine.FrameStep
import BuildScript.Proofs.Machine.IntegerArithmetic
import BuildScript.Proofs.Machine.MethodLookup
import BuildScript.Proofs.Machine.StackFloor
import BuildScript.Proofs.Machine.Steps
import BuildScript.Proofs.Machine.VerifiedRuns
import BuildScript.Proofs.Scripts.ClassFilePlaces
import BuildScript.Proofs.Scripts.ClassNames
import BuildScript.Proofs.Scripts.CleanUp
import BuildScript.Proofs.Scripts.CompileRuns
import BuildScript.Proofs.Scripts.EmptyScripts
import BuildScript.Proofs.Scripts.Eviction
import BuildScript.Proofs.Scripts.Findings
import BuildScript.Proofs.Scripts.LoadBack
import BuildScript.Proofs.Scripts.LoadCalls
import BuildScript.Proofs.Scripts.Payloads
import BuildScript.Proofs.Scripts.Records
import BuildScript.Proofs.Scripts.ReportedPlaces
import BuildScript.Proofs.Scripts.StoredScripts
import BuildScript.Proofs.Scripts.Varints
import BuildScript.Proofs.Scripts.WrittenRecords
import BuildScript.Proofs.Syntax.BareReturns
import BuildScript.Proofs.Syntax.JoinedExpressions
import BuildScript.Proofs.Syntax.JoinedScripts
import BuildScript.Proofs.Syntax.JoinedStatements
import BuildScript.Proofs.Syntax.Joining
import BuildScript.Proofs.Syntax.LaidExpressions
import BuildScript.Proofs.Syntax.LaidScripts
import BuildScript.Proofs.Syntax.LaidStatements
import BuildScript.Proofs.Syntax.LaidTrees
import BuildScript.Proofs.Syntax.Lexemes
import BuildScript.Proofs.Syntax.OrderedErrors
import BuildScript.Proofs.Syntax.ParsedNames
import BuildScript.Proofs.Syntax.ReadExpressions
import BuildScript.Proofs.Syntax.ReadScripts
import BuildScript.Proofs.Syntax.ReadStatements
import BuildScript.Proofs.Syntax.Reading
import BuildScript.Proofs.Syntax.Renaming
import BuildScript.Proofs.Syntax.Rendering
import BuildScript.Proofs.Syntax.Replacing
import BuildScript.Proofs.Syntax.SpelledTokens
import BuildScript.Proofs.Syntax.Tiling
import BuildScript.Proofs.Syntax.TokenQueues
import BuildScript.Proofs.Syntax.Walks
import BuildScript.Scripts.Build
import BuildScript.Scripts.CompileOperation
import BuildScript.Scripts.CompiledScript
import BuildScript.Scripts.Imports
import BuildScript.Scripts.Metadata
import BuildScript.Scripts.Payload
import BuildScript.Scripts.ScriptError
import BuildScript.Scripts.Source
import BuildScript.Syntax.Grammar
import BuildScript.Syntax.Lexeme
import BuildScript.Syntax.Span
import BuildScript.Syntax.SyntaxError
import BuildScript.Syntax.Token
import BuildScript.Syntax.Tree
import BuildScript.Syntax.Walk
import BuildScript.Text.Blank
import BuildScript.Text.CharSet
import BuildScript.Text.Digits
import BuildScript.Text.LetterCase
import BuildScript.Text.Letters
import BuildScript.Text.Quoted
import BuildScript.Text.Segments
import BuildScript.Text.Width
import BuildScript.Toml.Grammar
import BuildScript.Toml.Table
