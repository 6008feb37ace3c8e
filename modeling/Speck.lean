import Speck.F32
import Speck.SoftFloat
import Speck.Ast
import Speck.Builtins
import Speck.Demand
import Speck.Worklist
import Speck.ConstantEval
import Speck.Resume
import Speck.ConstantValues
import Speck.ConstantEvaluator
import Speck.TypeResolution
import Speck.ProgramTypes
import Speck.StructGraph
import Speck.Checker
import Speck.Sema
import Speck.ResolvedTypes
import Speck.Typing
import Speck.ConstantTyping
import Speck.CheckedProgram
import Speck.EarlyPhase
import Speck.InputControl
import Speck.Audio
import Speck.Runs
import Speck.Session
import Speck.SlotRecord
import Speck.Storage
import Speck.Walks
import Speck.Loader
import Speck.Dependencies
import Speck.ImportGraph
import Speck.SourceTexts
import Speck.Watch
import Speck.ParserState
import Speck.ParserExpression
import Speck.ParserProgram
import Speck.Printer
import Speck.ParseRules
import Speck.ParseExpressions
import Speck.ParsePrograms
import Speck.Effects
import Speck.Source
import Speck.TypeSafety
import Speck.RuntimeLoop
import Speck.Bytes
import Speck.FrameProtocol
import Speck.KeyCatalog
import Speck.ControlChannel
import Speck.Text
import Speck.Lexer
import Speck.Scan
import Speck.CursorParser
import Speck.Nesting
import Speck.Spans
import Speck.CursorRules
import Speck.CursorExpressions
import Speck.CursorStatements
import Speck.CursorPrograms
import Speck.ImportHeaders
import Speck.SymbolNames
import Speck.Resolve
import Speck.Analysis
import Speck.ValidSpans
import Speck.LoadedFiles
import Speck.SlotParser
import Speck.WavAsset
import Speck.HttpRequest
import Speck.Ring
import Speck.EffectQueue
import Speck.DirectEvaluation
import Speck.Suspension
import Speck.AggregateDepth
import Speck.CacheEntries
import Speck.DepthLimit
import Speck.Components
import Speck.RecursiveStructs
import Speck.DeclaredNames
import Speck.FastPath
import Speck.FrameProgress
import Speck.FrameReceiver
import Speck.CheckedInt
import Speck.Framebuffer
import Speck.KeyState
import Speck.SourceLocation
import Speck.EmbeddedData
import Speck.AudioRender
import Speck.LlvmLines
import Speck.Emitter
import Speck.EmitterProgress
import Speck.EmitterTotality
import Speck.EmitterSteps
import Speck.EmittedExpressions
import Speck.EmittedStatements
import Speck.EmittedBlocks
import Speck.FlowPaths
import Speck.EmittedDefinitions
import Speck.EmittedFlow
import Speck.EmittedForm
import Speck.LocatedLines
import Speck.LocatedExpressions
import Speck.LocatedStatements
import Speck.LocatedPrograms
import Speck.LoadedPrograms
import Speck.SoundHandles
import Speck.SoundLookup
