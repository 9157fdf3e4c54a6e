import EnvoyMesh.Lib.Prog
import EnvoyMesh.Lib.Store
import EnvoyMesh.Lib.Index
import EnvoyMesh.Lib.Json
import EnvoyMesh.Lib.JsonText
import EnvoyMesh.Lib.Sha256
import EnvoyMesh.Lib.Words
import EnvoyMesh.Lib.Runs
import EnvoyMesh.Lib.Endless
import EnvoyMesh.Lib.StructuralSchema
import EnvoyMesh.Lib.SlashPath
import EnvoyMesh.Lib.GoStruct
import EnvoyMesh.Api
import EnvoyMesh.Resource
import EnvoyMesh.ApiServer
import EnvoyMesh.Xds.Eds
import EnvoyMesh.Xds.Snapshot
import EnvoyMesh.Xds.Reference
import EnvoyMesh.Xds.Server
import EnvoyMesh.Xds.Streams
import EnvoyMesh.Controller
import EnvoyMesh.World
import EnvoyMesh.System
import EnvoyMesh.Undisturbed
import EnvoyMesh.History
import EnvoyMesh.Timeline
import EnvoyMesh.Deployment
import EnvoyMesh.Theorems.Collect
import EnvoyMesh.Theorems.Reconcile
import EnvoyMesh.Theorems.Build
import EnvoyMesh.Theorems.Succeeding
import EnvoyMesh.Theorems.Endpoints
import EnvoyMesh.Theorems.Synthesis
import EnvoyMesh.Theorems.Names
import EnvoyMesh.Theorems.Order
import EnvoyMesh.Theorems.Version
import EnvoyMesh.Theorems.Fingerprint
import EnvoyMesh.Theorems.Stable
import EnvoyMesh.Theorems.Diagnosis
import EnvoyMesh.Theorems.Running
import EnvoyMesh.Theorems.View
import EnvoyMesh.Theorems.Mapping
import EnvoyMesh.Theorems.LastGood
import EnvoyMesh.Theorems.Kept
import EnvoyMesh.Theorems.NoLostUpdate
import EnvoyMesh.Theorems.Outlive
import EnvoyMesh.Theorems.Connected
import EnvoyMesh.Theorems.Stages
import EnvoyMesh.Theorems.Ready
import EnvoyMesh.Theorems.Streaming
import EnvoyMesh.Theorems.Sources
import EnvoyMesh.Theorems.Rollback
import EnvoyMesh.Theorems.Frozen
import EnvoyMesh.Theorems.StatusWrites
import EnvoyMesh.Theorems.StatusSound
import EnvoyMesh.Theorems.Settling
import EnvoyMesh.Theorems.Quiet
import EnvoyMesh.Theorems.Missed
import EnvoyMesh.Theorems.Restless
import EnvoyMesh.Theorems.Replicas
import EnvoyMesh.Theorems.Agreement
import EnvoyMesh.Theorems.Contention
import EnvoyMesh.CrdGen.Registry
import EnvoyMesh.CrdGen.Schema
import EnvoyMesh.CrdGen.Expansion
import EnvoyMesh.Theorems.Conversion
import EnvoyMesh.Theorems.Cycles
import EnvoyMesh.Theorems.Pruning
import EnvoyMesh.Theorems.Admission
import EnvoyMesh.Theorems.Descriptions
import EnvoyMesh.Theorems.Scoping
import EnvoyMesh.CrdGen.Generator
import EnvoyMesh.Theorems.Manifests
import EnvoyMesh.CrdGen.Parser
import EnvoyMesh.Theorems.Declarations
import EnvoyMesh.Theorems.Output
import EnvoyMesh.Theorems.Failing
import EnvoyMesh.Theorems.Layout
import EnvoyMesh.Theorems.Resources
import EnvoyMesh.Theorems.Alike
import EnvoyMesh.Theorems.Arrival
