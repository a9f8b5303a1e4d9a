import RouteExchange.Metrics.Exposition
import RouteExchange.Config.Reader
import RouteExchange.Network
import RouteExchange.Proofs.Bus.History
import RouteExchange.Proofs.Bus.OwnRoutes
import RouteExchange.Proofs.Bus.Cleanup
import RouteExchange.Proofs.Bus.Enumeration
import RouteExchange.Proofs.Config.Accepted
import RouteExchange.Proofs.Engine.Encoding
import RouteExchange.Proofs.Metrics.Agreement
import RouteExchange.Proofs.Route.Communities
import RouteExchange.Proofs.Text.Families
import RouteExchange.Proofs.Text.RouteTargets
import RouteExchange.Proofs.Toml.Keys
import RouteExchange.Proofs.Worker.Acceptance
import RouteExchange.Proofs.Worker.Connecting
import RouteExchange.Proofs.Worker.Connections
import RouteExchange.Proofs.Worker.Interests
import RouteExchange.Proofs.Worker.HoldTimer
import RouteExchange.Proofs.Worker.Negotiation
import RouteExchange.Proofs.Worker.Outbound
import RouteExchange.Proofs.Worker.Retries
import RouteExchange.Proofs.Worker.Scripted
import RouteExchange.Proofs.Worker.Stopping
import RouteExchange.Proofs.Worker.Teardown
import RouteExchange.Proofs.Exchange.Sessions
