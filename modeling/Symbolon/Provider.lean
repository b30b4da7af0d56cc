import Symbolon.Clients
import Symbolon.GitCredential

/-!
# Providers

What the daemon knows of a provider (`src/providers/mod.rs`): the kind it is configured
under, the host it serves, and what its `mint` can return.
-/

namespace Symbolon

open Text

/-- Why a provider did not mint. -/
inductive ProviderError
  /-- The request did not go through. -/
  | transport
  /-- The provider refused the broker's credential. -/
  | unauthorized (body : Bytes)
  /-- The provider refused the request. -/
  | forbidden (body : Bytes)
  /-- No such repository, or no access to it. -/
  | repoNotFound
  /-- Too many requests. -/
  | rateLimited (retryAfterSecs : Option ℕ)
  /-- A status the broker does not know. -/
  | unexpectedStatus (status : ℕ)
  /-- The path is not a repository path. -/
  | malformedPath (path : Bytes)
  /-- A response of the provider could not be read. -/
  | malformedResponse (context detail : String)
  /-- The provider did not answer in time. -/
  | timeout
  /-- The daemon is shutting down. -/
  | cancelled
  /-- A failure inside the broker. -/
  | internal
  deriving DecidableEq

/-- What a mint returns; the correlation ids of the log are left out. -/
structure MintOutcome where
  /-- The credential. -/
  response : Response
  deriving DecidableEq

/-- A configured provider, as the daemon dispatches on it. -/
structure Provider where
  /-- The kind it is configured under. -/
  kind : ProviderKind
  /-- The host it serves. -/
  host : Bytes
  deriving DecidableEq

end Symbolon
