import Switchyard.MachineInt
import Switchyard.GoText
import Switchyard.Sha256
import Switchyard.ProviderTypes
set_option autoImplicit false

/-! The two-part identity of a cacheable request (internal/cache/key.go). -/

namespace Switchyard.Cache
open GoText ByteFields Sha256 Provider

structure Scope where
  org : String
  team : String
  isolated : Bool
  deriving DecidableEq, Repr

def Scope.id (s : Scope) : String :=
  if s.isolated || s.org == "" then "team:" ++ s.team else "org:" ++ s.org

/-- Two teams that may share answers: a team that is isolated or has no
organisation is alone, any other shares with its organisation. -/
def Scope.Shares (a b : Scope) : Prop :=
  if a.isolated = true ∨ a.org = "" ∨ b.isolated = true ∨ b.org = "" then a.team = b.team
  else a.org = b.org

theorem Scope.shares_of_id {a b : Scope} (h : a.id = b.id) : a.Shares b := by
  have happ : ∀ {x y z : String},x ++ y = x ++ z → y = z := by
    intro x y z hxy
    simpa [← String.toList_inj] using hxy
  have hapart : ∀ x y,"team:" ++ x ≠ "org:" ++ y := by simp [← String.toList_inj]
  unfold Scope.id at h
  unfold Scope.Shares
  split at h <;> rename_i ha <;> split at h <;> rename_i hb <;>
    simp only [Bool.or_eq_true,beq_iff_eq] at ha hb
  · rw [if_pos (or_assoc.1 (.inl ha))]
    exact happ h
  · exact (hapart _ _ h).elim
  · exact (hapart _ _ h.symm).elim
  · rw [if_neg (by tauto)]
    exact happ h

structure Key where
  fingerprint : String
  query : String
  entryID : String
  teamID : String
  scopeID : String
  deriving DecidableEq, Repr

/-- A running hash is the bytes written to it so far. -/
def writeField (h : List UInt8) (name value : String) : List UInt8 :=
  h ++ bigEndian 8 ((bytes name).length+(bytes value).length+1) ++ bytes name ++ [0] ++ bytes value

def normalizeQuery (s : String) : String := String.intercalate " " (fields s)

/-- Negation leaves the smallest int64 negative, so it has no digits. -/
def itoa (n : Int) : String :=
  if n = 0 then "0"
  else if n < 0 then String.ofList ('-' :: decimalDigits 20 (MachineInt.sub 0 n) [])
  else String.ofList (decimalDigits 20 n [])

def ftoa (f : UInt32) : String := hexEncode (bigEndian 4 f.toNat)

def temperatureText : Option UInt32 → String
  | none => "nil"
  | some f => ftoa f

def lastContent (req : Request) : Option String := req.messages.getLast?.map Message.content

def newKey (scope : Scope) (req : Request) : Key :=
  let h := writeField [] "scope" scope.id
  let h := writeField h "model" req.model
  let h := writeField h "maxtok" (itoa req.maxTokens)
  let h := writeField h "temp" (temperatureText req.temperature)
  let h := req.stop.foldl (fun h s => writeField h "stop" s) h
  let query := match lastContent req with
    | none => ""
    | some content => normalizeQuery content
  let h := req.messages.dropLast.foldl
    (fun h m => writeField (writeField h "role" m.role.text) "msg" m.content) h
  let fingerprint := hexEncode (sha256 h)
  let e := writeField (writeField [] "fp" fingerprint) "q" query
  { fingerprint, query, entryID := hexEncode (sha256 e), teamID := scope.team, scopeID := scope.id }

def field (name value : String) : Field := ⟨bytes name,bytes value⟩

theorem writeField_eq (h : List UInt8) (name value : String) :
    writeField h name value = h ++ encode [field name value] := by
  simp [writeField,encode,Field.frame,field]

theorem foldl_write {α : Type} {w : List UInt8 → α → List UInt8} {g : α → List Field}
    (hw : ∀ h x,w h x = h ++ encode (g x)) (xs : List α) (h : List UInt8) :
    xs.foldl w h = h ++ encode (xs.flatMap g) := by
  induction xs generalizing h with
  | nil => simp [encode]
  | cons x xs ih => simp [ih,hw,encode,List.flatMap_append]

def messageFields (m : Message) : List Field :=
  [field "role" m.role.text,field "msg" m.content]

def stopField (s : String) : Field := field "stop" s

def fingerprintFields (scope : Scope) (req : Request) : List Field :=
  field "scope" scope.id :: field "model" req.model :: field "maxtok" (itoa req.maxTokens) ::
    field "temp" (temperatureText req.temperature) ::
    (req.stop.map stopField ++ req.messages.dropLast.flatMap messageFields)

def queryText (req : Request) : String :=
  match lastContent req with
  | none => ""
  | some content => normalizeQuery content

def entryFields (fingerprint query : String) : List Field :=
  [field "fp" fingerprint,field "q" query]

theorem newKey_fingerprint (scope : Scope) (req : Request) :
    (newKey scope req).fingerprint = hexEncode (sha256 (encode (fingerprintFields scope req))) := by
  have hstop := foldl_write (g := fun s => [stopField s])
    (fun h s => writeField_eq h "stop" s) req.stop
  have hmsg := foldl_write (g := messageFields) (w := fun h m =>
      writeField (writeField h "role" m.role.text) "msg" m.content)
    (fun h m => by simp [writeField_eq,messageFields,encode]) req.messages.dropLast
  simp only [newKey]
  rw [hmsg,hstop]
  simp only [writeField_eq,← List.map_eq_flatMap]
  simp [fingerprintFields,encode]

theorem newKey_query (scope : Scope) (req : Request) :
    (newKey scope req).query = queryText req := rfl

theorem newKey_entryID (scope : Scope) (req : Request) :
    (newKey scope req).entryID = hexEncode (sha256 (encode (entryFields
      (newKey scope req).fingerprint (newKey scope req).query))) := by
  simp only [newKey,writeField_eq,entryFields]
  simp [encode]

theorem itoa_inj {m n : Int} (hm : 0 ≤ m ∧ m < 2^63) (hn : 0 ≤ n ∧ n < 2^63) (h : itoa m = itoa n) :
    m = n := by
  have value : ∀ k : Int,0 ≤ k ∧ k < 2^63 → digitsValue 0 (itoa k).toList = k.toNat := by
    intro k hk
    by_cases h0 : k = 0
    · subst h0; decide
    · rw [itoa,if_neg h0,if_neg (by omega),String.toList_ofList]
      exact decimalDigits_value [] hk.1 (by omega)
  have := value m hm
  rw [h,value n hn] at this
  omega

theorem ftoa_inj {f g : UInt32} (h : ftoa f = ftoa g) : f = g := by
  have hf := f.toNat_lt
  have hg := g.toNat_lt
  exact UInt32.toNat.inj (bigEndian_inj (by omega) (by omega) (hexEncode_inj h))

theorem temperatureText_inj {f g : Option UInt32} (h : temperatureText f = temperatureText g) :
    f = g := by
  have hne : ∀ x,"nil" ≠ ftoa x := by
    intro x hx
    have hlen := congrArg (fun s => s.toList.length) hx
    simp only [ftoa,hexEncode_length,bigEndian_length] at hlen
    revert hlen; decide
  cases f with
  | none =>
    cases g with
    | none => rfl
    | some y => exact absurd h (hne y)
  | some x =>
    cases g with
    | none => exact absurd h.symm (hne x)
    | some y => rw [ftoa_inj h]

theorem field_inj {n v n' v' : String} (h : field n v = field n' v') : n = n' ∧ v = v' := by
  simp only [field,Field.mk.injEq] at h
  exact ⟨bytes_inj h.1,bytes_inj h.2⟩

theorem messageFields_inj {xs ys : List Message}
    (h : xs.flatMap messageFields = ys.flatMap messageFields) : xs = ys := by
  induction xs generalizing ys with
  | nil =>
    cases ys with
    | nil => rfl
    | cons y ys => simp [messageFields] at h
  | cons x xs ih =>
    cases ys with
    | nil => simp [messageFields] at h
    | cons y ys =>
      obtain ⟨⟨role⟩,content⟩ := x
      obtain ⟨⟨role'⟩,content'⟩ := y
      simp only [List.flatMap_cons,messageFields,List.cons_append,List.nil_append,
        List.cons.injEq] at h
      obtain ⟨hrole,hcontent,hrest⟩ := h
      rw [(field_inj hrole).2,(field_inj hcontent).2,ih hrest]

theorem stop_messages_inj {ss ts : List String} {xs ys : List Message}
    (h : ss.map stopField ++ xs.flatMap messageFields =
      ts.map stopField ++ ys.flatMap messageFields) : ss = ts ∧ xs = ys := by
  have hne : ∀ (s : String) (rest : List Field) (zs : List Message),
      stopField s :: rest ≠ zs.flatMap messageFields := by
    intro s rest zs hz
    cases zs with
    | nil => simp at hz
    | cons z zs =>
      simp only [List.flatMap_cons,messageFields,List.cons_append,List.cons.injEq] at hz
      exact absurd (field_inj hz.1).1 (by decide)
  induction ss generalizing ts with
  | nil =>
    cases ts with
    | nil => exact ⟨rfl,messageFields_inj (by simpa using h)⟩
    | cons t ts => exact absurd h.symm (hne t _ xs)
  | cons s ss ih =>
    cases ts with
    | nil => exact absurd h (hne s _ ys)
    | cons t ts =>
      simp only [List.map_cons,List.cons_append,List.cons.injEq] at h
      have hrest := ih h.2
      rw [(field_inj h.1).2,hrest.1]
      exact ⟨rfl,hrest.2⟩

/-- What a key is built from, with texts as short as Go strings are. -/
structure KeySource where
  scope : Scope
  req : Request
  sized : ∀ f ∈ fingerprintFields scope req,f.value.length < 2^63
  querySized : (bytes (queryText req)).length < 2^63

def KeySource.key (a : KeySource) : Key := newKey a.scope a.req

def KeySource.preimage (a : KeySource) : List UInt8 := encode (fingerprintFields a.scope a.req)

def KeySource.entryPreimage (a : KeySource) : List UInt8 :=
  encode (entryFields a.key.fingerprint a.key.query)

/-- SHA-256 tells these two apart unless they hash the same bytes. -/
structure KeySource.CollisionFree (a b : KeySource) : Prop where
  fingerprint : sha256 a.preimage = sha256 b.preimage → a.preimage = b.preimage
  entry : sha256 a.entryPreimage = sha256 b.entryPreimage → a.entryPreimage = b.entryPreimage

structure KeyInput extends KeySource where
  nonempty : req.messages ≠ []
  maxTokens : 0 ≤ req.maxTokens ∧ req.maxTokens < 2^63

def KeyInput.last (a : KeyInput) : Message := a.req.messages.getLast a.nonempty

/-- Agreement on everything but the last message's role. -/
structure KeyInput.Agree (a b : KeyInput) : Prop where
  scope : a.scope.id = b.scope.id
  model : a.req.model = b.req.model
  maxTokens : a.req.maxTokens = b.req.maxTokens
  temperature : a.req.temperature = b.req.temperature
  stop : a.req.stop = b.req.stop
  earlier : a.req.messages.dropLast = b.req.messages.dropLast
  query : normalizeQuery a.last.content = normalizeQuery b.last.content

theorem KeyInput.query_eq (a : KeyInput) : queryText a.req = normalizeQuery a.last.content := by
  simp [queryText,lastContent,KeyInput.last,List.getLast?_eq_some_getLast a.nonempty]

def fieldNames : List String := ["scope","model","maxtok","temp","stop","role","msg","fp","q"]

theorem fieldNames_plain : ∀ n ∈ fieldNames,0 ∉ bytes n ∧ (bytes n).length ≤ 6 := by
  decide +kernel

theorem framed_field {n v : String} (hn : n ∈ fieldNames) (hv : (bytes v).length < 2^63) :
    (field n v).Framed := by
  have hplain := fieldNames_plain n hn
  exact ⟨hplain.1,by simp only [field]; omega⟩

theorem fingerprintFields_named {scope : Scope} {req : Request} {f : Field}
    (h : f ∈ fingerprintFields scope req) : ∃ n ∈ fieldNames,∃ v,f = field n v := by
  simp only [fingerprintFields,List.mem_cons,List.mem_append,List.mem_map,List.mem_flatMap,
    messageFields,List.not_mem_nil,or_false] at h
  obtain h | h | h | h | ⟨s,-,h⟩ | ⟨m,-,h | h⟩ := h
  · exact ⟨"scope",by decide,_,h⟩
  · exact ⟨"model",by decide,_,h⟩
  · exact ⟨"maxtok",by decide,_,h⟩
  · exact ⟨"temp",by decide,_,h⟩
  · exact ⟨"stop",by decide,_,h.symm⟩
  · exact ⟨"role",by decide,_,h⟩
  · exact ⟨"msg",by decide,_,h⟩

theorem KeySource.framed (a : KeySource) : ∀ f ∈ fingerprintFields a.scope a.req,f.Framed := by
  intro f hf
  have hsize := a.sized f hf
  obtain ⟨n,hn,v,rfl⟩ := fingerprintFields_named hf
  exact framed_field hn hsize

theorem bytes_fingerprint_le (scope : Scope) (req : Request) :
    (bytes (newKey scope req).fingerprint).length ≤ 256 := by
  rw [newKey_fingerprint]
  have hle := bytes_ofList_le (hexEncode (sha256 (encode (fingerprintFields scope req)))).toList
  rwa [String.ofList_toList,hexEncode_length,sha256_length] at hle

theorem KeySource.entry_framed (a : KeySource) :
    ∀ f ∈ entryFields a.key.fingerprint a.key.query,f.Framed := by
  intro f hf
  simp only [entryFields,List.mem_cons,List.not_mem_nil,or_false] at hf
  obtain rfl | rfl := hf
  · have hle := bytes_fingerprint_le a.scope a.req
    exact framed_field (by decide) (by rw [KeySource.key]; omega)
  · exact framed_field (by decide) a.querySized

theorem KeyInput.fields_eq_iff (a b : KeyInput) :
    fingerprintFields a.scope a.req = fingerprintFields b.scope b.req ↔
      a.scope.id = b.scope.id ∧ a.req.model = b.req.model ∧
      a.req.maxTokens = b.req.maxTokens ∧ a.req.temperature = b.req.temperature ∧
      a.req.stop = b.req.stop ∧ a.req.messages.dropLast = b.req.messages.dropLast := by
  constructor
  · intro h
    simp only [fingerprintFields,List.cons.injEq] at h
    obtain ⟨hscope,hmodel,hmax,htemp,hrest⟩ := h
    have htail := stop_messages_inj hrest
    exact ⟨(field_inj hscope).2,(field_inj hmodel).2,
      itoa_inj a.maxTokens b.maxTokens (field_inj hmax).2,
      temperatureText_inj (field_inj htemp).2,htail.1,htail.2⟩
  · rintro ⟨hscope,hmodel,hmax,htemp,hstop,hmsg⟩
    simp only [fingerprintFields,hscope,hmodel,hmax,htemp,hstop,hmsg]

theorem KeySource.fingerprint_eq_iff {a b : KeySource} (hcf : a.CollisionFree b) :
    a.key.fingerprint = b.key.fingerprint ↔
      fingerprintFields a.scope a.req = fingerprintFields b.scope b.req := by
  simp only [KeySource.key,newKey_fingerprint]
  constructor
  · intro h
    exact encode_inj a.framed b.framed (hcf.fingerprint (hexEncode_inj h))
  · intro h
    rw [h]

theorem KeySource.entryID_eq_iff {a b : KeySource} (hcf : a.CollisionFree b) :
    a.key.entryID = b.key.entryID ↔
      a.key.fingerprint = b.key.fingerprint ∧ a.key.query = b.key.query := by
  constructor
  · intro h
    rw [KeySource.key,KeySource.key,newKey_entryID,newKey_entryID] at h
    have hfields := encode_inj a.entry_framed b.entry_framed (hcf.entry (hexEncode_inj h))
    simp only [entryFields,List.cons.injEq] at hfields
    exact ⟨(field_inj hfields.1).2,(field_inj hfields.2.1).2⟩
  · intro h
    simp only [KeySource.key] at h ⊢
    rw [newKey_entryID,newKey_entryID,h.1,h.2]

theorem KeySource.scopeID_eq {a b : KeySource} (hcf : a.CollisionFree b)
    (h : a.key.fingerprint = b.key.fingerprint) : a.key.scopeID = b.key.scopeID := by
  have hfields := (KeySource.fingerprint_eq_iff hcf).1 h
  simp only [fingerprintFields,List.cons.injEq] at hfields
  exact (field_inj hfields.1).2

theorem KeyInput.entryID_eq_iff {a b : KeyInput} (hcf : a.CollisionFree b.toKeySource) :
    a.key.entryID = b.key.entryID ↔ a.Agree b := by
  rw [KeySource.entryID_eq_iff hcf,KeySource.fingerprint_eq_iff hcf,a.fields_eq_iff b]
  have hquery : a.key.query = b.key.query ↔
      normalizeQuery a.last.content = normalizeQuery b.last.content := by
    rw [← a.query_eq,← b.query_eq]
    exact Iff.rfl
  rw [hquery]
  constructor
  · intro h
    obtain ⟨⟨hscope,hmodel,hmax,htemp,hstop,hmsg⟩,hq⟩ := h
    exact ⟨hscope,hmodel,hmax,htemp,hstop,hmsg,hq⟩
  · intro h
    exact ⟨⟨h.scope,h.model,h.maxTokens,h.temperature,h.stop,h.earlier⟩,h.query⟩

/-- The entry ID identifies scope and request, the last message's role included,
exactly for the pairs that differ elsewhere or share that role. -/
theorem entryID_identifies_iff {a b : KeyInput} (hcf : a.CollisionFree b.toKeySource) :
    (a.key.entryID = b.key.entryID ↔ a.Agree b ∧ a.last.role = b.last.role) ↔
      (a.Agree b → a.last.role = b.last.role) := by
  rw [KeyInput.entryID_eq_iff hcf]
  constructor
  · intro h hagree
    exact (h.1 hagree).2
  · intro h
    exact ⟨fun hagree => ⟨hagree,h hagree⟩,And.left⟩

theorem query_hi_sized : (bytes (normalizeQuery "hi")).length < 2^63 := by decide +kernel

def singleMessage (role : Role) (stream : Bool) : KeyInput where
  scope := ⟨"o","t",false⟩
  req := ⟨"m",[⟨role,"hi"⟩],none,0,stream,[]⟩
  nonempty := by simp
  maxTokens := by simp
  sized := by
    show ∀ f ∈ fingerprintFields ⟨"o","t",false⟩ ⟨"m",[],none,0,false,[]⟩,f.value.length < 2^63
    decide +kernel
  querySized := query_hi_sized

theorem entryID_identifies_stream :
    (singleMessage .user true).key.entryID = (singleMessage .user false).key.entryID ↔
      (singleMessage .user true).Agree (singleMessage .user false) ∧
      (singleMessage .user true).last.role = (singleMessage .user false).last.role :=
  (entryID_identifies_iff (a := singleMessage .user true) (b := singleMessage .user false)
    ⟨fun _ => rfl,fun _ => rfl⟩).2 (fun _ => rfl)

/-- The role of the last message is not hashed. -/
theorem last_role_not_hashed :
    (singleMessage .user false).CollisionFree (singleMessage .assistant false).toKeySource ∧
    (singleMessage .user false).key.entryID = (singleMessage .assistant false).key.entryID ∧
    (singleMessage .user false).last.role ≠ (singleMessage .assistant false).last.role :=
  ⟨⟨fun _ => rfl,fun _ => rfl⟩,rfl,by decide⟩

end Switchyard.Cache
