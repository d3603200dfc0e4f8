import SessionWarden.Account.Password
import SessionWarden.Account.PasswordHash
import SessionWarden.Base64
import SessionWarden.Bytes
import SessionWarden.Calendar
import SessionWarden.CommandLine
import SessionWarden.Credential.Algorithm
import SessionWarden.Credential.Claims
import SessionWarden.Credential.Header
import SessionWarden.Credential.Inspector
import SessionWarden.Credential.Issuer
import SessionWarden.Digest.Argon2
import SessionWarden.Digest.Blake2b
import SessionWarden.Digest.Hmac
import SessionWarden.Digest.Sha1
import SessionWarden.Digest.Sha2
import SessionWarden.Double
import SessionWarden.Failure
import SessionWarden.Files
import SessionWarden.Hex
import SessionWarden.Http.Address
import SessionWarden.Http.Cookie
import SessionWarden.Http.MediaType
import SessionWarden.Http.Request
import SessionWarden.Http.Response
import SessionWarden.Http.Service
import SessionWarden.Json
import SessionWarden.Key.Der
import SessionWarden.Key.Info
import SessionWarden.Key.Material
import SessionWarden.Key.Pem
import SessionWarden.Key.Signer
import SessionWarden.Key.Tree
import SessionWarden.Log.Filter
import SessionWarden.Log.Note
import SessionWarden.Main
import SessionWarden.Program
import SessionWarden.Proofs.Account.Password
import SessionWarden.Proofs.Base64
import SessionWarden.Proofs.Calendar
import SessionWarden.Proofs.Credential.Acceptance
import SessionWarden.Proofs.Credential.Claims
import SessionWarden.Proofs.Credential.Inspection
import SessionWarden.Proofs.Credential.Parsing
import SessionWarden.Proofs.Credential.Parts
import SessionWarden.Proofs.Credential.RoundTrip
import SessionWarden.Proofs.Credential.SecondReading
import SessionWarden.Proofs.Http.Admission
import SessionWarden.Proofs.Http.Answers
import SessionWarden.Proofs.Http.Asking
import SessionWarden.Proofs.Http.Binding
import SessionWarden.Proofs.Http.ClientErrors
import SessionWarden.Proofs.Http.Cookies
import SessionWarden.Proofs.Http.Dates
import SessionWarden.Proofs.Http.Discretion
import SessionWarden.Proofs.Http.Handling
import SessionWarden.Proofs.Http.Provenance
import SessionWarden.Proofs.Http.Recognition
import SessionWarden.Proofs.Http.RefreshCookie
import SessionWarden.Proofs.Http.Routing
import SessionWarden.Proofs.Http.Unserved
import SessionWarden.Proofs.Json
import SessionWarden.Proofs.Key.Halves
import SessionWarden.Proofs.Server.OwnCredentials
import SessionWarden.Proofs.Session.Ages
import SessionWarden.Proofs.Session.Capacity
import SessionWarden.Proofs.Session.Closing
import SessionWarden.Proofs.Session.Command
import SessionWarden.Proofs.Session.Company
import SessionWarden.Proofs.Session.CompetingRefreshes
import SessionWarden.Proofs.Session.Conduct
import SessionWarden.Proofs.Session.Confined
import SessionWarden.Proofs.Session.Contract
import SessionWarden.Proofs.Session.Discipline
import SessionWarden.Proofs.Session.Discretion
import SessionWarden.Proofs.Session.Eviction
import SessionWarden.Proofs.Session.FailedCreate
import SessionWarden.Proofs.Session.FailedRefresh
import SessionWarden.Proofs.Session.Faultless
import SessionWarden.Proofs.Session.FixedReplies
import SessionWarden.Proofs.Session.FreshIdentifiers
import SessionWarden.Proofs.Session.Isolation
import SessionWarden.Proofs.Session.Issue
import SessionWarden.Proofs.Session.Ledger
import SessionWarden.Proofs.Session.Lineage
import SessionWarden.Proofs.Session.Logout
import SessionWarden.Proofs.Session.LogoutEverywhere
import SessionWarden.Proofs.Session.LostRotation
import SessionWarden.Proofs.Session.Moments
import SessionWarden.Proofs.Session.Operations
import SessionWarden.Proofs.Session.Overshoot
import SessionWarden.Proofs.Session.Overtaking
import SessionWarden.Proofs.Session.Owned
import SessionWarden.Proofs.Session.Progress
import SessionWarden.Proofs.Session.Refinement
import SessionWarden.Proofs.Session.Runs
import SessionWarden.Proofs.Session.SerialRuns
import SessionWarden.Proofs.Session.SingleUse
import SessionWarden.Proofs.Session.Stages
import SessionWarden.Proofs.Session.Steps
import SessionWarden.Proofs.Session.Traffic
import SessionWarden.Proofs.Session.Verdicts
import SessionWarden.Proofs.Session.Verification
import SessionWarden.Proofs.Uuid
import SessionWarden.Server
import SessionWarden.Session.Engine
import SessionWarden.Session.Params
import SessionWarden.Session.Record
import SessionWarden.Session.Repository
import SessionWarden.Session.Script
import SessionWarden.Session.Table
import SessionWarden.Session.World
import SessionWarden.Settings.Config
import SessionWarden.Settings.Settings
import SessionWarden.Settings.Toml
import SessionWarden.Signature.Edwards
import SessionWarden.Signature.Rsa
import SessionWarden.Signature.Weierstrass
import SessionWarden.Uuid
