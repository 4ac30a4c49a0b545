import Keyforge.Account.Admins
import Keyforge.Account.HiddenGroups
import Keyforge.Account.Login
import Keyforge.Account.Promotion
import Keyforge.Account.Provisioning
import Keyforge.Account.Recovery
import Keyforge.Admin.UserManagement
import Keyforge.Auth.AccountTokens
import Keyforge.Auth.Epoch
import Keyforge.Auth.Passkey
import Keyforge.Auth.Password
import Keyforge.Auth.Session
import Keyforge.Authorize.Admission
import Keyforge.Calm
import Keyforge.Client.Assertions
import Keyforge.Client.Projection
import Keyforge.Config
import Keyforge.Db.Administration
import Keyforge.Db.Devices
import Keyforge.Db.GroupMemberships
import Keyforge.Db.PermissionGroupRules
import Keyforge.Db.Queries
import Keyforge.Db.Schema
import Keyforge.Db.ScopeMerge
import Keyforge.Db.Triggers
import Keyforge.Db.Users
import Keyforge.Deployment
import Keyforge.Do.Chain
import Keyforge.Do.Consume
import Keyforge.Do.Family
import Keyforge.Do.OneTime
import Keyforge.Env
import Keyforge.Grant.ConsentUnion
import Keyforge.Grant.Device
import Keyforge.Grant.DeviceSession
import Keyforge.Grant.Rows
import Keyforge.Grant.Withdrawal
import Keyforge.History
import Keyforge.Keys.Calls
import Keyforge.Keys.FirstBoot
import Keyforge.Keys.Isolates
import Keyforge.Keys.Migration
import Keyforge.Keys.Propagation
import Keyforge.Keys.Rotation
import Keyforge.Keys.Rules
import Keyforge.Keys.Timeline
import Keyforge.Keys.Versions
import Keyforge.Lib.Along
import Keyforge.Lib.Json
import Keyforge.Lib.JsonText
import Keyforge.Lib.Least
import Keyforge.Lib.Machine
import Keyforge.Lib.Path
import Keyforge.Lib.Pool
import Keyforge.Lib.Prog
import Keyforge.Lib.Run
import Keyforge.Lib.Split
import Keyforge.Lib.Table
import Keyforge.Lib.TwoRuns
import Keyforge.Lib.Url
import Keyforge.Lib.Utf8
import Keyforge.Logic
import Keyforge.OAuth.AuthorizationClient
import Keyforge.OAuth.Authorize
import Keyforge.OAuth.Checks
import Keyforge.OAuth.Granted
import Keyforge.OAuth.Issue
import Keyforge.OAuth.PermissionRules
import Keyforge.OAuth.PrivateKeyJwt
import Keyforge.OAuth.RequestLimits
import Keyforge.OAuth.Resources
import Keyforge.OAuth.Scopes
import Keyforge.OAuth.Token
import Keyforge.OAuth.UserTokenPolicy
import Keyforge.Operations.Maintenance
import Keyforge.Paths
import Keyforge.Policy.Catalog
import Keyforge.Policy.Cleanup
import Keyforge.Policy.Decision
import Keyforge.Policy.Direction
import Keyforge.Policy.Migration
import Keyforge.Policy.References
import Keyforge.Policy.Triggers
import Keyforge.Refresh.Cap
import Keyforge.Refresh.Issuance
import Keyforge.Refresh.Mirror
import Keyforge.Refresh.Narrowing
import Keyforge.Routes.Account
import Keyforge.Routes.Login
import Keyforge.Routes.Recovery
import Keyforge.Security.Crypto
import Keyforge.Security.ReturnTo
import Keyforge.Tokens.Isolate
import Keyforge.Tokens.KeyRotation
import Keyforge.Tokens.Keyring
import Keyforge.Tokens.RefreshToken
import Keyforge.Tokens.Rules
import Keyforge.World
import Keyforge.Account.EmailCapability
import Keyforge.Introspection.RefreshTokens
import Keyforge.Account.MembershipStore
import Keyforge.Grant.Retirement
import Keyforge.Account.Replacement
import Keyforge.Auth.LoginMethods
import Keyforge.Account.LoginMethods
import Keyforge.Lib.Schema
import Keyforge.Policy.RuleInput
import Keyforge.Policy.Grammar
import Keyforge.Lib.AddressText
import Keyforge.OAuth.InternetAddress
import Keyforge.Metadata.Addresses
import Keyforge.Lib.Trace
import Keyforge.OAuth.PublicFetch
import Keyforge.Metadata.Fetch
import Keyforge.Account.Profile
import Keyforge.Lib.Base64
import Keyforge.Utils.Base64Url
import Keyforge.OAuth.Basic
import Keyforge.Do.RateLimit
import Keyforge.Mcp.ResourceServer
import Keyforge.Account.PasskeyCounter
import Keyforge.Media.Avatar
import Keyforge.Lib.FormUrlencoded
import Keyforge.Media.AvatarLifecycle
import Keyforge.Security.ReauthContinuation
import Keyforge.Operations.BoundedCleanup
import Keyforge.Console.Clients
import Keyforge.Lib.JsValue
import Keyforge.Lib.JsSchema
import Keyforge.Security.AuditSanitize
import Keyforge.Security.Audit
import Keyforge.OAuth.Confinement
import Keyforge.Security.ContinuationStore
import Keyforge.OAuth.Revoke
import Keyforge.Grant.Endpoint
import Keyforge.Grant.EndpointRuns
import Keyforge.Routes.Authorize
import Keyforge.Authorize.Gate
import Keyforge.Authorize.Flow
