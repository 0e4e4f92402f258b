import Argos.Agent.Records
import Argos.Agent.Releases
import Argos.Agent.Reports
import Argos.Agent.Responses
import Argos.Agent.Tokens
import Argos.Brain.Answers
import Argos.Central.Delivery
import Argos.Cli.Investigation
import Argos.Cli.Authorised
import Argos.Cli.Redaction
import Argos.Detect.Sampling
import Argos.Offsite.Survival
import Argos.Policies.Audited
import Argos.Policies.Crossings
import Argos.Policies.History
import Argos.Queue.Agreement
import Argos.Queue.Bundles
import Argos.Queue.Openable
import Argos.Recovery.Pruning
import Argos.Recovery.Replacing
import Argos.Recovery.Restore
import Argos.Response.Undo
import Argos.Response.Verified
import Argos.Sensor.Inspection
import Argos.Sensor.Losses
import Argos.Sensor.Signals
import Argos.Vault.Bindings
import Argos.Vault.Completions
import Argos.Vault.Listing
import Argos.Vault.Separation
import Argos.Vault.Splitting
import Argos.Vault.Usage
import Argos.Vault.WriteOnce
