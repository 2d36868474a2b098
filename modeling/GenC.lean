import GenC.Lib.Lambda
import GenC.Runtime.AbsentArguments
import GenC.Runtime.Adequacy
import GenC.Runtime.Block
import GenC.Runtime.CallbackTracker
import GenC.Runtime.Delegation
import GenC.Runtime.HandleAccounting
import GenC.Runtime.Materialization
import GenC.Runtime.OutputDiscipline
import GenC.Runtime.OwnedValueId
import GenC.Runtime.Reembedding
import GenC.Runtime.RemoteFaithful
import GenC.Runtime.RoundTrip
import GenC.Runtime.Selection
import GenC.Runtime.TaskSchedule
import GenC.Interop.Oak
import GenC.Intrinsics.WellFormed
import GenC.Runtime.Temporaries
import GenC.Types.Soundness
import GenC.Authoring.Hygiene
import GenC.Interop.Attestation
import GenC.Interop.LlmInferenceClient
import GenC.Interop.LlamaCpp
import GenC.Runtime.WhileAndFallback
import GenC.Runtime.CompositionLaws
import GenC.Retrieval.BiMap
import GenC.Types.Repair
import GenC.Intrinsics.Templates
import GenC.Runtime.Availability
import GenC.Authoring.Conditional
import GenC.Runtime.ParallelMap
import GenC.Runtime.IndependentLocals
import GenC.Retrieval.LocalCache
import GenC.Authoring.NamingTable
import GenC.Interop.Prediction
import GenC.Authoring.ToFromValueProto
import GenC.Interop.GeminiParser
import GenC.Interop.GoogleAi
import GenC.Interop.HttpClientImpl
import GenC.Interop.JavaHttpClientImpl
import GenC.Interop.UploadDataProvider
import GenC.Agents.React
import GenC.Authoring.SharedValues
import GenC.Authoring.SmartChain
import GenC.Runtime.RemoteLifetime
import GenC.Agents.CustomAgent
import GenC.Runtime.RunnerCalls
import GenC.Runtime.ScheduledStack
import GenC.Flow.Program
import GenC.Flow.Scheduled
import GenC.Flow.Guarded
import GenC.Flow.Cascade
import GenC.Interop.ConfidentialComputation
import GenC.Flow.PythonSession
import GenC.Flow.JavaSession
import GenC.Runtime.AnsweredCalls
