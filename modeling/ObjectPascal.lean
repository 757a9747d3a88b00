import ObjectPascal.Main
import ObjectPascal.Store.Graph
import ObjectPascal.Proofs.Moments
import ObjectPascal.Proofs.Conduct
import ObjectPascal.Proofs.Nesting
import ObjectPascal.Proofs.Activations
import ObjectPascal.Proofs.Grammar
import ObjectPascal.Proofs.Soundness
import ObjectPascal.Proofs.Completeness
import ObjectPascal.Proofs.Recognition
import ObjectPascal.Proofs.Contract
import ObjectPascal.Proofs.Plain
import ObjectPascal.Proofs.Wellformed
import ObjectPascal.Proofs.Terms
import ObjectPascal.Proofs.Compliance
import ObjectPascal.Proofs.Progress
import ObjectPascal.Proofs.Concealment
import ObjectPascal.Proofs.Encapsulation
import ObjectPascal.Proofs.Handlers
import ObjectPascal.Proofs.Instrumentation
import ObjectPascal.Proofs.Parallel
import ObjectPascal.Proofs.Likeness
import ObjectPascal.Proofs.Lockstep
import ObjectPascal.Proofs.Regime
import ObjectPascal.Proofs.Extension
import ObjectPascal.Proofs.Raising
import ObjectPascal.Proofs.Trail
import ObjectPascal.Proofs.Unwinding
import ObjectPascal.Proofs.FaultReport
import ObjectPascal.Proofs.EventOrder
import ObjectPascal.Proofs.Integers
import ObjectPascal.Proofs.Ranking
import ObjectPascal.Proofs.Shape
import ObjectPascal.Proofs.Spelling
import ObjectPascal.Proofs.CaseInsensitivity
import ObjectPascal.Proofs.Binding
import ObjectPascal.Proofs.Reading
import ObjectPascal.Proofs.Transcription
import ObjectPascal.Proofs.Access
import ObjectPascal.Proofs.Segmentation
import ObjectPascal.Proofs.Offsets
import ObjectPascal.Proofs.Printing
import ObjectPascal.Proofs.Displacement
import ObjectPascal.Proofs.FrontEnd
import ObjectPascal.Proofs.Chronicle
import ObjectPascal.Proofs.StepRules
import ObjectPascal.Proofs.Admission
import ObjectPascal.Proofs.Annotation
import ObjectPascal.Proofs.HostFaults
import ObjectPascal.Proofs.ExitStatus
import ObjectPascal.Proofs.Resolution
import ObjectPascal.Proofs.Invocation
import ObjectPascal.Proofs.Construction
import ObjectPascal.Proofs.Atomicity
import ObjectPascal.Proofs.Results
import ObjectPascal.Proofs.Functions
import ObjectPascal.Proofs.Arithmetic
import ObjectPascal.Proofs.NumberInput
import ObjectPascal.Proofs.Quotation
import ObjectPascal.Proofs.MemberTables
import ObjectPascal.Proofs.Precedence
