import Turnstile.Alarm
import Turnstile.Breaker
import Turnstile.Clock
import Turnstile.Config.Document
import Turnstile.Config.Rail
import Turnstile.Desk
import Turnstile.Limiter
import Turnstile.Metrics
import Turnstile.Note
import Turnstile.Promise
import Turnstile.Proofs.Agreement
import Turnstile.Proofs.AlarmRun
import Turnstile.Proofs.Assignment
import Turnstile.Proofs.Callbacks
import Turnstile.Proofs.Custody
import Turnstile.Proofs.DeskAccount
import Turnstile.Proofs.DeskRace
import Turnstile.Proofs.FiringOrder
import Turnstile.Proofs.ForcedOpen
import Turnstile.Proofs.GrantLedger
import Turnstile.Proofs.HealthLooks
import Turnstile.Proofs.Isolation
import Turnstile.Proofs.Lookback
import Turnstile.Proofs.LoudHandler
import Turnstile.Proofs.PermitBalance
import Turnstile.Proofs.Pledges
import Turnstile.Proofs.RailRun
import Turnstile.Proofs.Reordering
import Turnstile.Proofs.RunAndCall
import Turnstile.Proofs.StoppedCalls
import Turnstile.Proofs.TaskLife
import Turnstile.Proofs.TaskRun
import Turnstile.Proofs.TextRoundTrip
import Turnstile.Proofs.TrailingWindow
import Turnstile.Proofs.TrialCalls
import Turnstile.Proofs.TrialSlots
import Turnstile.Proofs.Waiters
import Turnstile.Rail
import Turnstile.Rail.Permit
import Turnstile.Script.Halting
import Turnstile.Script.Machine
import Turnstile.Script.Notify
import Turnstile.Script.Session
import Turnstile.Script.Step
import Turnstile.Toml.Codec
