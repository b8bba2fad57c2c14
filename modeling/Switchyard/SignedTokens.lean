import Switchyard.JSONText
import Switchyard.RawURL
import Switchyard.Sha256
set_option autoImplicit false

/-!
The three signed values of internal/identity (token.go, handlers.go, csrf.go):
the access token, the sign-in state cookie and the CSRF token, all signed with
one secret.
-/

namespace Switchyard.Identity
open GoText

structure Claims where
  userID : String
  orgID : String
  superadmin : Bool
  sessionID : String
  issuedAt : Int
  expiresAt : Int
  int64 : MachineInt.InRange issuedAt ∧ MachineInt.InRange expiresAt
  deriving DecidableEq

def Claims.text (c : Claims) : List Char :=
  JSONText.memberName '\x7b' "sub" ++ JSONText.quote c.userID ++
    JSONText.memberName ',' "org" ++ JSONText.quote c.orgID ++
    JSONText.memberName ',' "sa" ++ JSONText.formatBool c.superadmin ++
    JSONText.memberName ',' "sid" ++ JSONText.quote c.sessionID ++
    JSONText.memberName ',' "iat" ++ (formatInt c.issuedAt).toList ++
    JSONText.memberName ',' "exp" ++ (formatInt c.expiresAt).toList ++ ['\x7d']

def marshal (c : Claims) : List UInt8 := bytes (String.ofList c.text)

/-- What `verify` needs of `json.Unmarshal`, which also reads other JSON than
`json.Marshal` writes. -/
structure ClaimsJSON where
  unmarshal : List UInt8 → Option Claims
  unmarshal_marshal : ∀ c,unmarshal (marshal c) = some c

inductive TokenError where
  | invalid (reason : String)
  | expired
  deriving DecidableEq, Repr

def TokenError.text : TokenError → String
  | .invalid reason => "access token failed verification: " ++ reason
  | .expired => "access token expired"

def headerSegment : String := RawURL.encode (bytes "\x7b\"alg\":\"HS256\",\"typ\":\"JWT\"\x7d")

variable (json : ClaimsJSON) (secret : List UInt8)

/-- `signer.sign` and `Handlers.sign`. -/
def sign (body : String) : List UInt8 := Sha256.hmac secret (bytes body)

def signed (body : String) : String := body ++ "." ++ RawURL.encode (sign secret body)

def mintBody (c : Claims) : String := headerSegment ++ "." ++ RawURL.encode (marshal c)

def mint (c : Claims) : String := signed secret (mintBody c)

/-- `now` counts nanoseconds. -/
def verify (token : String) (now : Int) : Except TokenError Claims :=
  match cutLast token '.' with
  | none => .error (.invalid "no signature segment")
  | some (body,sig) =>
    if RawURL.decode sig ≠ some (sign secret body) then .error (.invalid "signature mismatch")
    else
      match cut body '.' with
      | none => .error (.invalid "no payload segment")
      | some (_,encoded) =>
        match RawURL.decode encoded with
        | none => .error (.invalid "payload is not base64url")
        | some payload =>
          match json.unmarshal payload with
          | none => .error (.invalid "payload is not json")
          | some c =>
            if c.userID = "" ∨ c.orgID = "" then .error (.invalid "missing subject or organization")
            else if c.expiresAt ≤ 0 ∨ c.expiresAt*1000000000 < now then .error .expired
            else .ok c

def sealState (state verifier : String) : String := signed secret (state ++ "." ++ verifier)

def openState (value : String) : Option (String × String) :=
  match cutLast value '.' with
  | none => none
  | some (payload,sig) =>
    if RawURL.decode sig ≠ some (sign secret payload) then none
    else
      match cut payload '.' with
      | none => none
      | some (state,verifier) => if state = "" ∨ verifier = "" then none else some (state,verifier)

/-- `callback` up to the exchange of the code: the verifier it exchanges with. -/
def callbackVerifier (cookie : Option String) (state : String) : Except (String × String) String :=
  match cookie with
  | none => .error ("missing_state","no sign-in is in progress for this browser")
  | some value =>
    match openState secret value with
    | none => .error ("invalid_state","the sign-in state could not be verified")
    | some (sealedState,verifier) =>
      if sealedState ≠ state then .error ("state_mismatch","the sign-in state did not match")
      else .ok verifier

abbrev Random := { bs : List UInt8 // bs.length = 32 }

/-- `oauth.NewState`, `oauth.NewVerifier` and the nonce of `newCSRFToken`. -/
def randomToken (r : Random) : String := RawURL.encode r.val

def newCSRFToken (r : Random) : String := signed secret (randomToken r)

def validCSRFToken (v : String) : Bool :=
  match cut v '.' with
  | none => false
  | some (nonce,sig) => nonce ≠ "" && RawURL.decode sig = some (sign secret nonce)

/-- What the server hands out in sign-ins and refreshes. -/
inductive Issue where
  | start (state verifier : Random)
  | session (c : Claims)
  | csrf (nonce : Random)

inductive Kind where
  | state
  | access
  | csrf
  deriving DecidableEq, Repr

def Issue.kind : Issue → Kind
  | .start _ _ => .state
  | .session _ => .access
  | .csrf _ => .csrf

def Issue.body : Issue → String
  | .start state verifier => randomToken state ++ "." ++ randomToken verifier
  | .session c => mintBody c
  | .csrf nonce => randomToken nonce

def Issue.token : Issue → String
  | .start state verifier => sealState secret (randomToken state) (randomToken verifier)
  | .session c => mint secret c
  | .csrf nonce => newCSRFToken secret nonce

/-- What can be presented after the server issued these values: a text carries
the tag of a body only if the server signed that body. -/
def Presentable (issued : List Issue) (v : String) : Prop :=
  ∀ body sig : String,v.toList = body.toList ++ '.' :: sig.toList →
    RawURL.decode sig = some (sign secret body) → ∃ i ∈ issued,i.body = body

def Claims.Live (c : Claims) (now : Int) : Prop :=
  c.userID ≠ "" ∧ c.orgID ≠ "" ∧ 0 < c.expiresAt ∧ now ≤ c.expiresAt*1000000000

section
variable {json : ClaimsJSON} {secret : List UInt8} {issued : List Issue} {now : Int} {v : String}

theorem toList_dot (a b : String) : (a ++ "." ++ b).toList = a.toList ++ '.' :: b.toList := by simp

theorem dot_not_mem_header : '.' ∉ headerSegment.toList := RawURL.dot_not_mem_encode _

theorem dot_not_mem_randomToken (r : Random) : '.' ∉ (randomToken r).toList :=
  RawURL.dot_not_mem_encode _

theorem randomToken_length (r : Random) : (randomToken r).length = 43 := by
  rw [randomToken,RawURL.encode_length,r.property]

/-- 27 bytes of header against 32 random ones. -/
theorem header_ne_randomToken (r : Random) : headerSegment ≠ randomToken r := by
  intro h
  have hlen := congrArg String.length h
  rw [randomToken_length] at hlen
  exact absurd hlen (by decide)

theorem cut_start (state verifier : Random) :
    cut ((Issue.start state verifier).body) '.' =
      some (randomToken state,randomToken verifier) :=
  cut_iff.2 ⟨toList_dot _ _,dot_not_mem_randomToken state⟩

theorem cut_session (c : Claims) : cut ((Issue.session c).body) '.' =
    some (headerSegment,RawURL.encode (marshal c)) := cut_iff.2 ⟨toList_dot _ _,dot_not_mem_header⟩

theorem cut_csrf (nonce : Random) : cut ((Issue.csrf nonce).body) '.' = none := by
  cases h : cut ((Issue.csrf nonce).body) '.' with
  | none => rfl
  | some x =>
    obtain ⟨hsplit,-⟩ := cut_iff.1 h
    exact absurd (hsplit ▸ List.mem_append_right _ List.mem_cons_self)
      (dot_not_mem_randomToken nonce)

theorem kind_of_body {i j : Issue} (h : i.body = j.body) : i.kind = j.kind := by
  have hcut : cut (i.body) '.' = cut (j.body) '.' := by rw [h]
  cases i with
  | start state verifier =>
    cases j with
    | start => rfl
    | session c =>
      rw [cut_start,cut_session] at hcut
      exact absurd (Prod.mk.inj (Option.some.inj hcut)).1.symm (header_ne_randomToken state)
    | csrf nonce =>
      rw [cut_start,cut_csrf] at hcut
      cases hcut
  | session c =>
    cases j with
    | start state verifier =>
      rw [cut_start,cut_session] at hcut
      exact absurd (Prod.mk.inj (Option.some.inj hcut)).1 (header_ne_randomToken state)
    | session => rfl
    | csrf nonce =>
      rw [cut_session,cut_csrf] at hcut
      cases hcut
  | csrf nonce =>
    cases j with
    | start state verifier =>
      rw [cut_start,cut_csrf] at hcut
      cases hcut
    | session c =>
      rw [cut_session,cut_csrf] at hcut
      cases hcut
    | csrf => rfl

theorem cutLast_signed (body : String) :
    cutLast (signed secret body) '.' = some (body,RawURL.encode (sign secret body)) :=
  cutLast_iff.2 ⟨toList_dot _ _,RawURL.dot_not_mem_encode _⟩

theorem Issue.token_eq (i : Issue) : i.token secret = signed secret i.body := by
  cases i <;> rfl

theorem token_presentable {i : Issue} (hi : i ∈ issued) :
    Presentable secret issued (i.token secret) := by
  intro body sig hsplit hsig
  have hlast := cutLast_iff.2 ⟨hsplit,RawURL.dot_not_mem_of_decode hsig⟩
  rw [i.token_eq,cutLast_signed] at hlast
  exact ⟨i,hi,(Prod.mk.inj (Option.some.inj hlast)).1⟩

theorem mint_presentable {c : Claims} (hc : .session c ∈ issued) :
    Presentable secret issued (mint secret c) := by
  have h : Presentable secret issued ((Issue.session c).token secret) := token_presentable hc
  exact h

theorem Presentable.body (h : Presentable secret issued v) {body sig : String}
    (hlast : cutLast v '.' = some (body,sig)) (hsig : RawURL.decode sig = some (sign secret body)) :
    ∃ i ∈ issued,i.body = body := h body sig (cutLast_iff.1 hlast).1 hsig

theorem verify_iff {c : Claims} : verify json secret v now = .ok c ↔
    ∃ body sig header encoded payload,cutLast v '.' = some (body,sig) ∧
      RawURL.decode sig = some (sign secret body) ∧ cut body '.' = some (header,encoded) ∧
      RawURL.decode encoded = some payload ∧ json.unmarshal payload = some c ∧ c.Live now := by
  unfold verify
  constructor
  · intro h
    split at h
    · cases h
    rename_i body sig hlast
    split at h
    · cases h
    rename_i hsig
    split at h
    · cases h
    rename_i header encoded hcut
    split at h
    · cases h
    rename_i payload hdecode
    split at h
    · cases h
    rename_i d hjson
    split at h
    · cases h
    rename_i hnamed
    split at h
    · cases h
    rename_i htime
    cases h
    refine ⟨body,sig,header,encoded,payload,hlast,Decidable.not_not.1 hsig,hcut,hdecode,hjson,?_⟩
    obtain ⟨huser,horg⟩ := not_or.1 hnamed
    obtain ⟨hpos,hlate⟩ := not_or.1 htime
    exact ⟨huser,horg,by omega,by omega⟩
  · intro h
    obtain ⟨body,sig,header,encoded,payload,hlast,hsig,hcut,hdecode,hjson,
      huser,horg,hpos,hlate⟩ := h
    have hnamed : ¬(c.userID = "" ∨ c.orgID = "") := not_or.2 ⟨huser,horg⟩
    have htime : ¬(c.expiresAt ≤ 0 ∨ c.expiresAt*1000000000 < now) := by omega
    simp only [hlast,hsig,hcut,hdecode,hjson,hnamed,htime,ne_eq,not_true_eq_false,if_false]

theorem openState_iff {state verifier : String} : openState secret v = some (state,verifier) ↔
    ∃ body sig,cutLast v '.' = some (body,sig) ∧ RawURL.decode sig = some (sign secret body) ∧
      cut body '.' = some (state,verifier) ∧ state ≠ "" ∧ verifier ≠ "" := by
  unfold openState
  constructor
  · intro h
    split at h
    · cases h
    rename_i body sig hlast
    split at h
    · cases h
    rename_i hsig
    split at h
    · cases h
    rename_i s k hcut
    split at h
    · cases h
    rename_i hfull
    cases h
    exact ⟨body,sig,hlast,Decidable.not_not.1 hsig,hcut,not_or.1 hfull⟩
  · intro h
    obtain ⟨body,sig,hlast,hsig,hcut,hstate,hverifier⟩ := h
    simp [hlast,hsig,hcut,hstate,hverifier]

theorem validCSRFToken_iff : validCSRFToken secret v = true ↔ ∃ nonce sig,
    cut v '.' = some (nonce,sig) ∧ nonce ≠ "" ∧ RawURL.decode sig = some (sign secret nonce) := by
  unfold validCSRFToken
  cases cut v '.' with
  | none => simp
  | some x =>
    obtain ⟨nonce,sig⟩ := x
    constructor
    · intro h
      exact ⟨nonce,sig,rfl,by simpa using h⟩
    · intro h
      obtain ⟨_,_,heq,hrest⟩ := h
      cases heq
      simpa using hrest

def Carries (v : String) (i : Issue) : Prop :=
  ∃ sig,cutLast v '.' = some (i.body,sig)

/-- `verify` is right about every value that can be presented. -/
def VerifySound (json : ClaimsJSON) (secret : List UInt8) (issued : List Issue) (now : Int) :
    Prop :=
  ∀ v,Presentable secret issued v → ∀ c,verify json secret v now = .ok c →
    .session c ∈ issued ∧ Carries v (.session c)

def OpenSound (secret : List UInt8) (issued : List Issue) : Prop :=
  ∀ v,Presentable secret issued v → ∀ x y,openState secret v = some (x,y) →
    ∃ state verifier,.start state verifier ∈ issued ∧ x = randomToken state ∧
      y = randomToken verifier ∧ Carries v (.start state verifier)

def CSRFSound (secret : List UInt8) (issued : List Issue) : Prop :=
  ∀ v,Presentable secret issued v → validCSRFToken secret v = true →
    ∃ nonce,.csrf nonce ∈ issued ∧ Carries v (.csrf nonce)

theorem Carries.kind_eq {i j : Issue} (h : Carries (i.token secret) j) : i.kind = j.kind := by
  obtain ⟨sig,hlast⟩ := h
  rw [i.token_eq,cutLast_signed] at hlast
  exact kind_of_body (Prod.mk.inj (Option.some.inj hlast)).1

/-- The body of an access token gives back the claims it was minted for; a state
cookie passes only if its verifier happens to be the JSON of claims. -/
theorem verifySound_iff : VerifySound json secret issued now ↔
    ∀ state verifier c,.start state verifier ∈ issued → json.unmarshal verifier.val = some c →
      ¬c.Live now := by
  constructor
  · intro hsound state verifier c hi hjson hlive
    have hv : verify json secret ((Issue.start state verifier).token secret) now = .ok c := by
      rw [Issue.token_eq]
      exact verify_iff.2 ⟨_,_,_,_,_,cutLast_signed _,RawURL.decode_encode _,
        cut_start state verifier,RawURL.decode_encode _,hjson,hlive⟩
    exact nomatch (hsound _ (token_presentable hi) c hv).2.kind_eq
  · intro hnone v hv c hc
    obtain ⟨body,sig,header,encoded,payload,hlast,hsig,hcut,hdecode,hjson,hlive⟩ := verify_iff.1 hc
    obtain ⟨i,hi,rfl⟩ := hv.body hlast hsig
    cases i with
    | start state verifier =>
      rw [cut_start] at hcut
      obtain ⟨-,rfl⟩ := Prod.mk.inj (Option.some.inj hcut)
      rw [randomToken,RawURL.decode_encode] at hdecode
      obtain rfl := Option.some.inj hdecode
      exact absurd hlive (hnone state verifier c hi hjson)
    | session d =>
      rw [cut_session] at hcut
      obtain ⟨-,rfl⟩ := Prod.mk.inj (Option.some.inj hcut)
      rw [RawURL.decode_encode] at hdecode
      obtain rfl := Option.some.inj hdecode
      rw [json.unmarshal_marshal] at hjson
      obtain rfl := Option.some.inj hjson
      exact ⟨hi,sig,hlast⟩
    | csrf nonce =>
      rw [cut_csrf] at hcut
      cases hcut

theorem encode_ne_empty {bs : List UInt8} (h : bs ≠ []) : RawURL.encode bs ≠ "" := by
  intro hempty
  have hdecode := RawURL.decode_encode bs
  rw [hempty] at hdecode
  exact h (Option.some.inj hdecode).symm

theorem marshal_ne_nil (c : Claims) : marshal c ≠ [] := by
  intro h
  have htext : String.ofList c.text = "" := bytes_inj (h.trans (show [] = bytes "" from rfl))
  have hnil : c.text = [] := by rw [← String.toList_ofList (l := c.text),htext,String.toList_empty]
  exact List.append_ne_nil_of_right_ne_nil _ (List.cons_ne_nil _ _) hnil

/-- An access token opens as a state cookie: its header is the state and its
payload the verifier. -/
theorem openState_mint (c : Claims) : openState secret (mint secret c) =
    some (headerSegment,RawURL.encode (marshal c)) :=
  openState_iff.2 ⟨_,_,cutLast_signed _,RawURL.decode_encode _,cut_session c,by decide,
    encode_ne_empty (marshal_ne_nil c)⟩

/-- So it passes the state check of the callback, with a state that is the same
for everyone. -/
theorem callbackVerifier_mint (c : Claims) :
    callbackVerifier secret (some (mint secret c)) headerSegment =
      .ok (RawURL.encode (marshal c)) := by
  simp only [callbackVerifier,openState_mint,ne_eq,not_true_eq_false,if_false]

theorem openSound_iff : OpenSound secret issued ↔ ∀ c,.session c ∉ issued := by
  constructor
  · intro hsound c hi
    obtain ⟨state,-,-,hstate,-⟩ := hsound _ (token_presentable hi) _ _ (openState_mint c)
    exact header_ne_randomToken state hstate
  · intro hnone v hv x y hopen
    obtain ⟨body,sig,hlast,hsig,hcut,-⟩ := openState_iff.1 hopen
    obtain ⟨i,hi,rfl⟩ := hv.body hlast hsig
    cases i with
    | start state verifier =>
      rw [cut_start] at hcut
      obtain ⟨rfl,rfl⟩ := Prod.mk.inj (Option.some.inj hcut)
      exact ⟨state,verifier,hi,rfl,rfl,sig,hlast⟩
    | session c => exact absurd hi (hnone c)
    | csrf nonce =>
      rw [cut_csrf] at hcut
      cases hcut

/-- The nonce ends at the first dot, and the other two kinds have a dot in what
is signed. -/
theorem csrfSound : CSRFSound secret issued := by
  intro v hv hvalid
  obtain ⟨nonce,sig,hcut,-,hsig⟩ := validCSRFToken_iff.1 hvalid
  obtain ⟨hsplit,hdot⟩ := cut_iff.1 hcut
  obtain ⟨i,hi,rfl⟩ := hv nonce sig hsplit hsig
  cases i with
  | start state verifier =>
    rw [Issue.body,toList_dot] at hdot
    exact absurd (List.mem_append_right _ List.mem_cons_self) hdot
  | session c =>
    rw [Issue.body,mintBody,toList_dot] at hdot
    exact absurd (List.mem_append_right _ List.mem_cons_self) hdot
  | csrf nonce => exact ⟨nonce,hi,sig,cutLast_iff.2 ⟨hsplit,RawURL.dot_not_mem_of_decode hsig⟩⟩

def Passes (json : ClaimsJSON) (secret : List UInt8) (now : Int) (v : String) : Kind → Prop
  | .state => ∃ x,openState secret v = some x
  | .access => ∃ c,verify json secret v now = .ok c
  | .csrf => validCSRFToken secret v = true

/-- The values of a history are accepted for what they are, and nothing else is. -/
structure CredentialsSound (json : ClaimsJSON) (secret : List UInt8) (issued : List Issue)
    (now : Int) : Prop where
  verify : VerifySound json secret issued now
  opened : OpenSound secret issued
  csrf : CSRFSound secret issued
  apart : ∀ i ∈ issued,∀ k,Passes json secret now (i.token secret) k → i.kind = k

/-- The credentials of a history are told apart exactly when it has no access
token, which would open as a state cookie, and no state cookie whose random
verifier is the JSON of claims that are still good. -/
theorem credentials_sound_iff : CredentialsSound json secret issued now ↔
    (∀ c,.session c ∉ issued) ∧ ∀ state verifier c,.start state verifier ∈ issued →
      json.unmarshal verifier.val = some c → ¬c.Live now := by
  constructor
  · exact fun h => ⟨openSound_iff.1 h.opened,verifySound_iff.1 h.verify⟩
  · intro h
    have hverify : VerifySound json secret issued now := verifySound_iff.2 h.2
    have hopen : OpenSound secret issued := openSound_iff.2 h.1
    refine ⟨hverify,hopen,csrfSound,fun i hi k hk => ?_⟩
    have hv : Presentable secret issued (i.token secret) := token_presentable hi
    cases k with
    | state =>
      obtain ⟨x,hx⟩ := hk
      obtain ⟨state,verifier,-,-,-,hcarries⟩ := hopen _ hv _ _ hx
      exact hcarries.kind_eq
    | access =>
      obtain ⟨c,hc⟩ := hk
      exact (hverify _ hv c hc).2.kind_eq
    | csrf =>
      obtain ⟨nonce,-,hcarries⟩ := csrfSound _ hv hk
      exact hcarries.kind_eq

end

def readClaims (cs : List Char) : Option Claims := do
  let cs ← JSONText.readText (JSONText.memberName '\x7b' "sub") cs
  let (userID,cs) ← JSONText.readString cs
  let cs ← JSONText.readText (JSONText.memberName ',' "org") cs
  let (orgID,cs) ← JSONText.readString cs
  let cs ← JSONText.readText (JSONText.memberName ',' "sa") cs
  let (superadmin,cs) ← JSONText.readBool cs
  let cs ← JSONText.readText (JSONText.memberName ',' "sid") cs
  let (sessionID,cs) ← JSONText.readString cs
  let cs ← JSONText.readText (JSONText.memberName ',' "iat") cs
  let (issuedAt,cs) ← JSONText.readInt cs
  let cs ← JSONText.readText (JSONText.memberName ',' "exp") cs
  let (expiresAt,cs) ← JSONText.readInt cs
  if h : (MachineInt.InRange issuedAt ∧ MachineInt.InRange expiresAt) ∧ cs = ['\x7d'] then
    some ⟨userID,orgID,superadmin,sessionID,issuedAt,expiresAt,h.1⟩
  else none

theorem readClaims_text (c : Claims) : readClaims c.text = some c := by
  have hcomma : JSONText.isIntChar ',' = false := by decide
  have hexp := JSONText.readInt_format c.int64.2 (c := '\x7d') (by decide) []
  rw [Claims.text]
  simp only [List.append_assoc]
  unfold readClaims
  dsimp only [bind]
  -- member by member: the name, then the value
  rw [JSONText.readText_append,Option.bind_some,JSONText.readString_quote,Option.bind_some]
  rw [JSONText.readText_append,Option.bind_some,JSONText.readString_quote,Option.bind_some]
  rw [JSONText.readText_append,Option.bind_some,JSONText.readBool_format,Option.bind_some]
  rw [JSONText.readText_append,Option.bind_some,JSONText.readString_quote,Option.bind_some]
  rw [JSONText.readText_append,Option.bind_some,JSONText.readInt_member c.int64.1 hcomma,
    Option.bind_some]
  rw [JSONText.readText_append,Option.bind_some,hexp,Option.bind_some]
  exact dif_pos ⟨c.int64,rfl⟩

def writtenClaims : ClaimsJSON where
  unmarshal bs := readClaims (textOf bs).toList
  unmarshal_marshal c := by rw [marshal,textOf_bytes,String.toList_ofList,readClaims_text]

def memberClaims : Claims := ⟨"u","o",false,"s",0,900,by decide⟩

def zeros : Random := ⟨List.replicate 32 0,rfl⟩

def oneSignIn : List Issue := [.start zeros zeros,.session memberClaims,.csrf zeros]

/-- After one sign-in the browser's own access token passes as a state cookie. -/
theorem session_opens_as_state :
    Presentable (bytes "secret") oneSignIn (mint (bytes "secret") memberClaims) ∧
      callbackVerifier (bytes "secret") (some (mint (bytes "secret") memberClaims)) headerSegment =
        .ok (RawURL.encode (marshal memberClaims)) ∧
      ¬OpenSound (bytes "secret") oneSignIn ∧
      ¬CredentialsSound writtenClaims (bytes "secret") oneSignIn 0 := by
  have hmem : Issue.session memberClaims ∈ oneSignIn := .tail _ (.head _)
  exact ⟨mint_presentable hmem,callbackVerifier_mint memberClaims,
    fun h => openSound_iff.1 h memberClaims hmem,
    fun h => openSound_iff.1 h.opened memberClaims hmem⟩

end Switchyard.Identity
