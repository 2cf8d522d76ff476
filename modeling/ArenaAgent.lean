import ArenaAgent.Main
import ArenaAgent.Tree.Leaf
import ArenaAgent.Host.Run
import ArenaAgent.Proofs.Tree.Abandonment
import ArenaAgent.Proofs.Tree.Blocking
import ArenaAgent.Proofs.Agent.Session
import ArenaAgent.Proofs.Agent.Containment
import ArenaAgent.Proofs.Agent.Walking
import ArenaAgent.Proofs.Agent.Acts
import ArenaAgent.Proofs.Agent.Branches
import ArenaAgent.Proofs.Agent.Patrolling
import ArenaAgent.Proofs.Agent.Aim
import ArenaAgent.Proofs.Arena.Radii
import ArenaAgent.Proofs.Binary64.Products
import ArenaAgent.Proofs.Agent.Preemption
import ArenaAgent.Proofs.Agent.Solitude
import ArenaAgent.Proofs.Arena.Zeros
import ArenaAgent.Proofs.Binary64.Zeros
import ArenaAgent.Proofs.Agent.Draws
import ArenaAgent.Proofs.Binary64.Remainder
import ArenaAgent.Proofs.Host.Completion
import ArenaAgent.Proofs.Agent.Animation
import ArenaAgent.Proofs.Arena.Distances
import ArenaAgent.Proofs.Binary64.Distances
import ArenaAgent.Proofs.Binary64.Compass
import ArenaAgent.Proofs.Agent.Stillness
import ArenaAgent.Proofs.Tree.Verdict
import ArenaAgent.Proofs.Tree.Duality
import ArenaAgent.Proofs.Tree.Policy
import ArenaAgent.Proofs.Tree.Flattening
import ArenaAgent.Proofs.Agent.Footprint
import ArenaAgent.Proofs.Exact.Plane
import ArenaAgent.Proofs.Tree.Renewal
import ArenaAgent.Proofs.Agent.Persistence
import ArenaAgent.Proofs.Exact.Walks
import ArenaAgent.Proofs.Exact.Flights
import ArenaAgent.Proofs.Agent.Demands
import ArenaAgent.Proofs.Arena.Shuttling
import ArenaAgent.Proofs.Agent.Landing
import ArenaAgent.Proofs.Host.Scoring
import ArenaAgent.Proofs.Agent.Outline
import ArenaAgent.Proofs.Json.Roundtrip
