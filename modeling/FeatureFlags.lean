import FeatureFlags.Connection.Exchange
import FeatureFlags.Host.Desk
import FeatureFlags.Host.Server
import FeatureFlags.Listener.Script
import FeatureFlags.Main
import FeatureFlags.Registry.Desk
import FeatureFlags.Proofs.Contexts
import FeatureFlags.Proofs.Registry.Counting
import FeatureFlags.Proofs.Client.Frame
import FeatureFlags.Proofs.Client.Lifecycle
import FeatureFlags.Proofs.Client.Mirror
import FeatureFlags.Proofs.Client.Following
import FeatureFlags.Proofs.Session.Readings
import FeatureFlags.Proofs.Session.Failures
import FeatureFlags.Proofs.Connection.Memory
import FeatureFlags.Proofs.Connection.Remote.Replay
import FeatureFlags.Proofs.Connection.Remote.Requests
import FeatureFlags.Proofs.Json.Numerals
import FeatureFlags.Proofs.Json.Reading
import FeatureFlags.Proofs.Host.Contexts
import FeatureFlags.Proofs.Client.Users
import FeatureFlags.Proofs.Session.Clock
import FeatureFlags.Proofs.Host.Overwrites
import FeatureFlags.Proofs.Contexts.Algebra
import FeatureFlags.Proofs.Differences.Exact
import FeatureFlags.Proofs.Evaluation.Relevance
import FeatureFlags.Proofs.Listeners.Emissions
import FeatureFlags.Proofs.Client.Reactions
import FeatureFlags.Proofs.Records
import FeatureFlags.Proofs.Evaluation.Rollouts
import FeatureFlags.Proofs.Extraction
import FeatureFlags.Proofs.Host.Events
import FeatureFlags.Proofs.Config.Blank
import FeatureFlags.Proofs.Config.Grammar
import FeatureFlags.Proofs.Evaluation.Domains
import FeatureFlags.Proofs.Host.Polling
