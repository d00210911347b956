import TrickleNet.Node.Loop
import TrickleNet.Sim.Experiment
import TrickleNet.Proofs.Measuring
import TrickleNet.Proofs.Overlooking
import TrickleNet.Proofs.Latency
import TrickleNet.Proofs.Closing
import TrickleNet.Proofs.Keys
import TrickleNet.Proofs.Slots
import TrickleNet.Proofs.Orderly
import TrickleNet.Proofs.Rang
import TrickleNet.Proofs.Ownership
import TrickleNet.Proofs.Backlog
import TrickleNet.Proofs.Settling
import TrickleNet.Proofs.Transparency
import TrickleNet.Proofs.Promise
import TrickleNet.Proofs.Decision
import TrickleNet.Proofs.Tempo
import TrickleNet.Proofs.Readiness
import TrickleNet.Proofs.Starvation
import TrickleNet.Proofs.Service
import TrickleNet.Proofs.Agenda
import TrickleNet.Proofs.Collecting
import TrickleNet.Proofs.Pause
import TrickleNet.Proofs.Requests
import TrickleNet.Proofs.Scenes
import TrickleNet.Proofs.Sound
import TrickleNet.Proofs.Ahead
import TrickleNet.Proofs.Punctual
import TrickleNet.Proofs.Standing
import TrickleNet.Proofs.Forest
import TrickleNet.Proofs.Emission
import TrickleNet.Proofs.Timeline
import TrickleNet.Proofs.Isolation
import TrickleNet.Proofs.Refusals
import TrickleNet.Proofs.Neighbors
import TrickleNet.Proofs.Airing
import TrickleNet.Proofs.Conservation
import TrickleNet.Proofs.Gradient
import TrickleNet.Proofs.Outflow
import TrickleNet.Proofs.Ticker
import TrickleNet.Proofs.Soliciting
import TrickleNet.Proofs.Overflow
import TrickleNet.Proofs.Edits
import TrickleNet.Proofs.Shapes
import TrickleNet.Proofs.Turns
import TrickleNet.Proofs.Routing
import TrickleNet.Proofs.Octets
import TrickleNet.Proofs.Admission
