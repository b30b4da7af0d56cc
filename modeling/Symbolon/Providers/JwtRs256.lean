import Symbolon.Lib.Encoding

/-!
# The token of a GitHub App

The claims of `src/providers/jwt_backend.rs` and the signer of `src/providers/jwt_rs256.rs`.
A token is three parts joined by dots: the fixed header, the claims as JSON, and the RSA
signature over the first two, each in base64.

The header and the signature of a 2048-bit key have a fixed size; the claims have not, since
they carry the issuer's name. So a token is as long as its payload makes it, and it holds
nothing that a JSON string would have to escape (`Symbolon.exists_signRs256`).
-/

namespace Symbolon

open Text

/-! ### The claims -/

/-- `JwtClaims`. -/
structure JwtClaims where
  /-- The App's client id. -/
  iss : Str
  /-- When the token was issued. -/
  iat : UInt64
  /-- When it expires. -/
  exp : UInt64
  deriving DecidableEq

/-- The claims as `serde_json` writes them: the fields in their order, no blanks. -/
def JwtClaims.json (claims : JwtClaims) : Bytes :=
  ascii "\x7b\"iss\":" ++ (Json.quote claims.iss.bytes ++
    (ascii ",\"iat\":" ++ (ascii (toString claims.iat.toNat) ++
      (ascii ",\"exp\":" ++ (ascii (toString claims.exp.toNat) ++ ascii "\x7d")))))

/-- **The claims can be read back**, whatever stands behind them. -/
theorem JwtClaims.json_append_inj {claims claims' : JwtClaims} {bs cs : Bytes}
    (h : claims.json ++ bs = claims'.json ++ cs) : claims = claims' ∧ bs = cs := by
  obtain ⟨iss, iat, exp⟩ := claims
  obtain ⟨iss', iat', exp'⟩ := claims'
  simp only [JwtClaims.json, List.append_assoc] at h
  -- field by field: a string ends at its quote, a number at the comma or the brace
  obtain ⟨hiss, h₁⟩ := Json.quote_append_inj (List.append_cancel_left h)
  obtain ⟨hiat, h₂⟩ := ascii_toString_append_inj 0x2C (by decide) (List.append_cancel_left h₁)
  obtain ⟨hexp, hrest⟩ := ascii_toString_append_inj 0x7D (by decide) (List.append_cancel_left h₂)
  obtain rfl : iss = iss' := Str.ext hiss
  obtain rfl : iat = iat' := UInt64.toNat_inj.mp hiat
  obtain rfl : exp = exp' := UInt64.toNat_inj.mp hexp
  exact ⟨rfl, hrest⟩

/-! ### The signer -/

/-- `JwtError`. -/
inductive JwtError
  /-- The key file is not text. -/
  | pemUtf8
  /-- The key file holds no RSA key. -/
  | pemParse
  /-- The claims could not be written. -/
  | serializeClaims (source : Str)
  deriving DecidableEq

/-- The texts of the errors. -/
def JwtError.display : JwtError → Str
  | .pemUtf8 => .ofAscii (ascii "PEM is not valid UTF-8") (by decide)
  | .pemParse =>
    .ofAscii (ascii "PEM parse failed ") (by decide) ++ ⟨[0xE2, 0x80, 0x94], by decide⟩ ++
      .ofAscii (ascii " not a recognised PKCS#1 or PKCS#8 RSA private key") (by decide)
  | .serializeClaims _ => .ofAscii (ascii "claims serialization failed") (by decide)

/-- The header `{"typ":"JWT","alg":"RS256"}` in base64, as the source spells it. -/
def headerB64 : Str := .ofAscii (ascii "eyJ0eXAiOiJKV1QiLCJhbGciOiJSUzI1NiJ9") (by decide)

example :
    headerB64.bytes = Base64.encode (ascii "\x7b\"typ\":\"JWT\",\"alg\":\"RS256\"\x7d") := by
  decide

/-- A string of bytes in base64, as text. -/
def base64 (bs : Bytes) : Str where
  bytes := Base64.encode bs
  valid := utf8ValidUpTo_of_ascii fun _ hb => (Base64.isPlain_of_mem_encode hb).2

/-- The dot between the parts of a token. -/
def dot : Str := .ofAscii (ascii ".") (by decide)

/-- `JwtSigningKey`, with a key of 2048 bits: a signature is 256 bytes, whatever is signed. -/
structure JwtSigningKey where
  /-- The signature over a message. -/
  sign : Bytes → Bytes
  /-- Its size. -/
  length_sign : ∀ message, (sign message).length = 256

section Signing

variable {C : Type} (toVec : C → Except Str Bytes)

/-- `signing_input`: the header and the payload. What the claims are does not matter, only
what `serde_json::to_vec` makes of them. -/
def signingInput (claims : C) : Except JwtError Str :=
  match toVec claims with
  | .error e => .error (.serializeClaims e)
  | .ok payloadJson => .ok (headerB64 ++ dot ++ base64 payloadJson)

/-- `assemble_jwt`. -/
def assembleJwt (signingInput : Str) (signature : Bytes) : Str :=
  signingInput ++ dot ++ base64 signature

/-- `JwtSigningKey::sign_rs256`. -/
def JwtSigningKey.signRs256 (signer : JwtSigningKey) (claims : C) : Except JwtError Str :=
  match signingInput toVec claims with
  | .error e => .error e
  | .ok input => .ok (assembleJwt input (signer.sign input.bytes))

variable {toVec} (signer : JwtSigningKey) {claims : C}

theorem signRs256_of_error {e : Str} (h : toVec claims = .error e) :
    signer.signRs256 toVec claims = .error (.serializeClaims e) := by
  simp only [JwtSigningKey.signRs256, signingInput, h]

/-- **A token is its payload and 380 bytes more**, the payload in base64, and nothing in it
needs an escape. -/
theorem exists_signRs256 {payload : Bytes} (h : toVec claims = .ok payload) :
    ∃ token, signer.signRs256 toVec claims = .ok token ∧
      token.bytes.length = (4 * payload.length + 2) / 3 + 380 ∧
      ∀ b ∈ token.bytes, Json.isPlain b = true := by
  have hheader : headerB64.bytes.length = 36 ∧ ∀ b ∈ headerB64.bytes, Json.isPlain b = true :=
    ⟨by decide, List.all_eq_true.mp (by decide)⟩
  have hdot : dot.bytes.length = 1 ∧ ∀ b ∈ dot.bytes, Json.isPlain b = true :=
    ⟨by decide, List.all_eq_true.mp (by decide)⟩
  have hplain (bs : Bytes) : ∀ b ∈ (base64 bs).bytes, Json.isPlain b = true :=
    fun b hb => (Base64.isPlain_of_mem_encode hb).1
  refine ⟨_, by simp only [JwtSigningKey.signRs256, signingInput, h]; rfl, ?_, ?_⟩
  · simp only [assembleJwt, Str.bytes_append, List.length_append, hheader.1, hdot.1, base64,
      Base64.length_encode, signer.length_sign]
    omega
  · simp only [assembleJwt, Str.bytes_append, List.forall_mem_append]
    exact ⟨⟨⟨⟨hheader.2, hdot.2⟩, hplain _⟩, hdot.2⟩, hplain _⟩

end Signing

end Symbolon
