import AgentOS.Hub.FakeStore
import AgentOS.Hub.Routes
import AgentOS.Identifiers
import AgentOS.Lib.Run
import AgentOS.Python.Strings

/-!
# Authentication

`_resolve_auth` tries the configured keys and then the credentials of machines.  It is exact over every history of
issues and revocations as long as `hmac.compare_digest` can compare the token with the configured keys; on text that is
not ASCII that raises, and nothing catches it (`auth_exact_iff`).
-/

namespace AgentOS

/-- `hashlib.sha256(text.encode("utf-8")).hexdigest()`. -/
structure Digest where
  hexdigest : String → String
  ascii : ∀ text, isascii (hexdigest text) = true

/-! ### The keys of the configuration -/

/-- `_BEARER_PREFIX`. -/
def bearerPrefix : String := "Bearer "

/-- `_parse_keys`. -/
def parseKeys (raw : Option String) : List String :=
  match raw.filter (· ≠ "") with
  | none => []
  | some raw => ((splitOn ',' raw).map strip).filter (· ≠ "")

/-- The loop of `_authorized`; `none` where a comparison raises. -/
def matchKeys (presented : String) : Bool → List String → Option Bool
  | matched, [] => some matched
  | matched, key :: keys => match compareDigest presented key with
    | none => none
    | some same => matchKeys presented (same || matched) keys

/-- `_authorized`; `none` where it raises. -/
def authorized (header : String) (expected : List String) : Option Bool :=
  if expected = [] then some false
  else match dropPrefix? bearerPrefix header with
    | none => some false
    | some rest => if strip rest = "" then some false else matchKeys (strip rest) false expected

/-! ### The resolution -/

/-- `AuthContext` with its `key_id`. -/
structure ResolvedAuth extends AuthContext where
  keyId : Option String

/-- The identity of the configured keys. -/
def adminAuth : ResolvedAuth := ⟨⟨true, none⟩, none⟩

/-- The identity of a credential. -/
def machineAuth (machineId keyId : String) : ResolvedAuth := ⟨⟨false, some machineId⟩, some keyId⟩

theorem machineAuth_inj {m m' id id' : String} : machineAuth m id = machineAuth m' id' ↔ m = m' ∧ id = id' := by
  simp [machineAuth]

theorem machineAuth_ne_admin (m id : String) : machineAuth m id ≠ adminAuth := by simp [machineAuth, adminAuth]

/-- What `_resolve_auth` calls of a store; `none` where the method raises. -/
structure CredentialApi (Store : Type) where
  getCredential : Store → String → Option (Option CredentialRecord)
  touchCredentialLastUsed : Store → String → Option Store

/-- The second phase of `_resolve_auth`. -/
def resolveCredential {Store : Type} (digest : Digest) (api : CredentialApi Store) (store : Store)
    (presented : String) : Option (Option ResolvedAuth × Store) :=
  match partition? '.' presented with
  | none => some (none, store)
  | some (keyId, secret) =>
    if keyId = "" ∨ secret = "" then some (none, store)
    else match api.getCredential store keyId with
      | none => some (none, store)
      | some none => some (none, store)
      | some (some cred) =>
        if cred.revokedAt.isSome then some (none, store)
        else match compareDigest (digest.hexdigest secret) cred.secretHash with
          | none => none
          | some false => some (none, store)
          | some true =>
            some (some (machineAuth cred.machineId keyId), (api.touchCredentialLastUsed store keyId).getD store)

/-- `_resolve_auth`; `none` where it raises. -/
def resolveAuth {Store : Type} (digest : Digest) (api : CredentialApi Store) (header : String) (expected : List String)
    (store : Store) : Option (Option ResolvedAuth × Store) :=
  match authorized header expected with
  | none => none
  | some true => some (some adminAuth, store)
  | some false => match dropPrefix? bearerPrefix header with
    | none => some (none, store)
    | some rest => if strip rest = "" then some (none, store) else resolveCredential digest api store (strip rest)

/-- The methods of `FakeStore`. -/
def FakeStore.credentialApi (now : Int) : CredentialApi FakeStore where
  getCredential store keyId := some (store.credentials keyId)
  touchCredentialLastUsed store keyId := some (store.touchCredentialLastUsed now keyId)

/-! ### Issues and revocations -/

/-- What `_mint_credential` draws: a ULID, and the 43 characters of `secrets.token_urlsafe(32)`. -/
structure Minted where
  ulid : String
  secret : String
  ulid_eq : ∃ timestampMs randomness, generateUlid timestampMs randomness = some ulid
  secret_length : secret.toList.length = 43
  secret_urlsafe : ∀ c ∈ secret.toList, c.isAlphanum ∨ c = '-' ∨ c = '_'

/-- The `key_id` of a minted credential. -/
def Minted.keyId (minted : Minted) : String := "key_" ++ minted.ulid

/-- A request to the hub: an admin issues or revokes a credential, or somebody presents a header. -/
inductive KeyRequest where
  | issue (machineId : String) (label : Option String) (minted : Minted) (now : Int)
  | revoke (machineId keyId : String) (now : Int)
  | present (header : String) (now : Int)

/-- `issue_credential` for an admin; a machine that is not registered is not found. -/
def issueCredential (digest : Digest) (store : FakeStore) (machineId : String) (label : Option String) (minted : Minted)
    (now : Int) : FakeStore × Option Minted :=
  if store.machineExists machineId then
    (store.insertCredential now minted.keyId machineId (digest.hexdigest minted.secret) label, some minted)
  else (store, none)

/-- `revoke_credential` for an admin; a credential of another machine is not found. -/
def revokeCredential (store : FakeStore) (machineId keyId : String) (now : Int) : FakeStore × Bool :=
  match store.credentials keyId with
  | none => (store, false)
  | some cred => if cred.machineId = machineId then ((store.revokeCredential now keyId).1, true) else (store, false)

/-- The store after a request.  A `key_id` is not minted twice. -/
def KeyRequest.next (digest : Digest) (expected : List String) (store : FakeStore) : KeyRequest → Option FakeStore
  | .issue machineId label minted now =>
    if (store.credentials minted.keyId).isSome then none
    else some (issueCredential digest store machineId label minted now).1
  | .revoke machineId keyId now => some (revokeCredential store machineId keyId now).1
  | .present header now =>
    some ((resolveAuth digest (FakeStore.credentialApi now) header expected store).elim store (·.2))

/-! ### What is promised -/

/-- The header is `Bearer ` followed by the token, up to white space around it. -/
def Presents (header token : String) : Prop := ∃ rest, header = bearerPrefix ++ rest ∧ strip rest = token

/-- The header presents a configured key. -/
def PresentsKey (raw : Option String) (header : String) : Prop := ∃ token ∈ parseKeys raw, Presents header token

/-- The request issues a credential for a registered machine. -/
def KeyRequest.Issues (machines : List String) (machineId keyId secret : String) : KeyRequest → Prop
  | .issue m _ minted _ => m ∈ machines ∧ m = machineId ∧ minted.keyId = keyId ∧ minted.secret = secret
  | _ => False

/-- The request revokes a credential of a machine. -/
def KeyRequest.Revokes (machineId keyId : String) : KeyRequest → Prop
  | .revoke m id _ => m = machineId ∧ id = keyId
  | _ => False

/-- The credential was issued with the secret and has not been revoked since. -/
def Active (machines : List String) (history : List KeyRequest) (machineId keyId secret : String) : Prop :=
  Run.Since (KeyRequest.Issues machines machineId keyId secret) (fun r => ¬ r.Revokes machineId keyId) history

/-- The result is the right one for the header after the history. -/
structure ExactAuth (machines : List String) (raw : Option String) (history : List KeyRequest) (header : String)
    (result : Option ResolvedAuth) : Prop where
  admin : result = some adminAuth ↔ PresentsKey raw header
  machine : ∀ machineId keyId, result = some (machineAuth machineId keyId) ↔
    ¬ PresentsKey raw header ∧
      ∃ secret, Presents header (keyId ++ "." ++ secret) ∧ Active machines history machineId keyId secret
  nothing_else : ∀ auth, result = some auth → auth = adminAuth ∨ ∃ machineId keyId, auth = machineAuth machineId keyId
  revoked : ∀ before after machineId keyId secret now, history = before ++ .revoke machineId keyId now :: after →
    (∃ r ∈ before, r.Issues machines machineId keyId secret) → ∀ m, result ≠ some (machineAuth m keyId)

/-- The token that the header presents, if any, and the configured keys are ASCII, unless no key is configured. -/
def Comparable (raw : Option String) (header : String) : Prop :=
  ∀ token, Presents header token → token ≠ "" → ∀ key ∈ parseKeys raw, isascii token = true ∧ isascii key = true

/-- The secrets that are issued, and the one that the header presents. -/
def secretsInPlay (history : List KeyRequest) (header : String) : Set String :=
  {secret | (∃ machineId label minted now, .issue machineId label minted now ∈ history ∧ minted.secret = secret) ∨
    ∃ token keyId, Presents header token ∧ partition? '.' token = some (keyId, secret)}

/-! ### The configured keys -/

variable {raw : Option String} {header : String}

private theorem matchKeys_isSome {presented : String} {matched : Bool} {keys : List String} :
    (matchKeys presented matched keys).isSome ↔ ∀ key ∈ keys, isascii presented = true ∧ isascii key = true := by
  induction keys generalizing matched with
  | nil => simp [matchKeys]
  | cons key keys ih =>
    rw [matchKeys, List.forall_mem_cons]
    by_cases hascii : isascii presented = true ∧ isascii key = true
    · rw [compareDigest_of_ascii hascii.1 hascii.2]
      dsimp only
      rw [ih]
      exact (and_iff_right hascii).symm
    · rw [compareDigest, if_neg (by simpa using hascii)]
      exact iff_of_false Bool.false_ne_true fun h => hascii h.1

private theorem matchKeys_eq {presented : String} {matched result : Bool} {keys : List String}
    (h : matchKeys presented matched keys = some result) : result = true ↔ matched = true ∨ presented ∈ keys := by
  induction keys generalizing matched with
  | nil =>
    obtain rfl := Option.some.inj h
    simp
  | cons key keys ih =>
    rw [matchKeys] at h
    split at h
    · cases h
    case h_2 same hsame =>
      unfold compareDigest at hsame
      split at hsame
      · obtain rfl := Option.some.inj hsame
        rw [ih h, List.mem_cons, Bool.or_eq_true, decide_eq_true_iff]
        exact or_assoc.trans or_left_comm
      · cases hsame

theorem empty_notMem_parseKeys : "" ∉ parseKeys raw := by
  unfold parseKeys
  split
  · exact List.not_mem_nil
  · intro h
    simpa using (List.mem_filter.1 h).2

theorem presents_iff {rest token : String} (h : dropPrefix? bearerPrefix header = some rest) :
    Presents header token ↔ token = strip rest := by
  constructor
  · rintro ⟨rest', hrest', rfl⟩
    rw [dropPrefix?_eq_some.2 hrest'] at h
    rw [Option.some.inj h]
  · rintro rfl
    exact ⟨rest, dropPrefix?_eq_some.1 h, rfl⟩

theorem not_presents {token : String} (h : dropPrefix? bearerPrefix header = none) : ¬ Presents header token := by
  rintro ⟨rest, hrest, -⟩
  rw [dropPrefix?_eq_some.2 hrest] at h
  cases h

/-- `_authorized` raises where it has to compare text that is not ASCII. -/
theorem authorized_isSome : (authorized header (parseKeys raw)).isSome ↔ Comparable raw header := by
  unfold authorized Comparable
  by_cases hkeys : parseKeys raw = []
  · rw [if_pos hkeys, hkeys]
    exact iff_of_true rfl fun _ _ _ _ => by simp
  · rw [if_neg hkeys]
    cases hprefix : dropPrefix? bearerPrefix header with
    | none => exact iff_of_true rfl fun token hpresents => absurd hpresents (not_presents hprefix)
    | some rest =>
      dsimp only
      by_cases hempty : strip rest = ""
      · rw [if_pos hempty]
        refine iff_of_true rfl fun token hpresents hne => absurd ?_ hne
        rw [(presents_iff hprefix).1 hpresents, hempty]
      · rw [if_neg hempty, matchKeys_isSome]
        constructor
        · intro h token hpresents _
          rw [(presents_iff hprefix).1 hpresents]
          exact h
        · exact fun h => h _ ((presents_iff hprefix).2 rfl) hempty

/-- Where it does not raise, it says whether the header presents a configured key. -/
theorem authorized_eq {result : Bool} (h : authorized header (parseKeys raw) = some result) :
    result = true ↔ PresentsKey raw header := by
  unfold authorized at h
  unfold PresentsKey
  split at h
  case isTrue hkeys =>
    obtain rfl := Option.some.inj h
    rw [hkeys]
    simp
  case isFalse =>
    split at h
    case h_1 hprefix =>
      obtain rfl := Option.some.inj h
      refine iff_of_false Bool.false_ne_true ?_
      rintro ⟨token, -, hpresents⟩
      exact not_presents hprefix hpresents
    case h_2 rest hprefix =>
      have hpresents : (∃ token ∈ parseKeys raw, Presents header token) ↔ strip rest ∈ parseKeys raw := by
        constructor
        · rintro ⟨token, htoken, hpresents⟩
          exact (presents_iff hprefix).1 hpresents ▸ htoken
        · exact fun hmem => ⟨_, hmem, (presents_iff hprefix).2 rfl⟩
      rw [hpresents]
      split at h
      case isTrue hempty =>
        obtain rfl := Option.some.inj h
        rw [hempty]
        exact iff_of_false Bool.false_ne_true empty_notMem_parseKeys
      case isFalse =>
        rw [matchKeys_eq h]
        simp

/-! ### The credentials -/

variable {digest : Digest} {store store' : FakeStore} {machines : List String} {history : List KeyRequest}

/-- What the resolution reads of a credential. -/
def FakeStore.credentialView (store : FakeStore) (keyId : String) : Option (String × String × Option Int) :=
  (store.credentials keyId).map fun cred => (cred.machineId, cred.secretHash, cred.revokedAt)

private theorem credentialView_touch (store : FakeStore) (now : Int) (keyId : String) :
    (store.touchCredentialLastUsed now keyId).credentialView = store.credentialView := by
  funext id
  unfold FakeStore.touchCredentialLastUsed FakeStore.credentialView
  split
  · rfl
  case h_2 cred hcred =>
    by_cases hid : id = keyId
    · subst hid
      dsimp only
      rw [Function.update_self, hcred]
      rfl
    · dsimp only
      rw [Function.update_of_ne hid]

private theorem credentialView_insert (store : FakeStore) (now : Int) (keyId machineId secretHash : String)
    (label : Option String) : (store.insertCredential now keyId machineId secretHash label).credentialView =
      Function.update store.credentialView keyId (some (machineId, secretHash, none)) := by
  funext id
  unfold FakeStore.insertCredential FakeStore.credentialView
  dsimp only
  by_cases hid : id = keyId
  · subst hid
    rw [Function.update_self, Function.update_self]
    rfl
  · rw [Function.update_of_ne hid, Function.update_of_ne hid]

/-- A revocation takes effect on a credential of the machine, and stays. -/
private theorem credentialView_revoke (store : FakeStore) (machineId keyId : String) (now : Int) :
    (revokeCredential store machineId keyId now).1.credentialView = fun id =>
      (store.credentialView id).map fun (owner, hash, revokedAt) =>
        (owner, hash, if id = keyId ∧ owner = machineId then revokedAt.or (some now) else revokedAt) := by
  funext id
  unfold revokeCredential FakeStore.credentialView
  split
  case h_1 hnone =>
    by_cases hid : id = keyId
    · subst hid
      rw [hnone]
      rfl
    · simp [hid, Function.comp_def]
  case h_2 cred hcred =>
    by_cases hid : id = keyId
    · subst hid
      split
      case isTrue howner =>
        simp [FakeStore.revokeCredential, hcred, howner]
      case isFalse howner =>
        simp [hcred, howner]
    · split
      · simp [FakeStore.revokeCredential, hcred, hid, Function.comp_def]
      · simp [hid, Function.comp_def]

/-- What the second phase makes of a token. -/
structure CredentialResolved (digest : Digest) (now : Int) (store : FakeStore) (presented : String)
    (result : Option ResolvedAuth) (store' : FakeStore) : Prop where
  resolves : resolveCredential digest (FakeStore.credentialApi now) store presented = some (result, store')
  view : store'.credentialView = store.credentialView
  machines : store'.machines = store.machines
  machine_only : ∀ auth, result = some auth → ∃ machineId keyId, auth = machineAuth machineId keyId
  iff : ∀ machineId keyId, result = some (machineAuth machineId keyId) ↔
    ∃ secret, partition? '.' presented = some (keyId, secret) ∧ keyId ≠ "" ∧ secret ≠ "" ∧
      store.credentialView keyId = some (machineId, digest.hexdigest secret, none)

/-- It does not raise where the stored hashes are digests. -/
private theorem exists_resolved (now : Int) (presented : String)
    (hdigest : ∀ id cred, store.credentials id = some cred → ∃ secret, cred.secretHash = digest.hexdigest secret) :
    ∃ result store', CredentialResolved digest now store presented result store' := by
  have hnothing : resolveCredential digest (FakeStore.credentialApi now) store presented = some (none, store) →
      (∀ machineId keyId secret, partition? '.' presented = some (keyId, secret) → keyId ≠ "" → secret ≠ "" →
        store.credentialView keyId ≠ some (machineId, digest.hexdigest secret, none)) →
      ∃ result store', CredentialResolved digest now store presented result store' := by
    intro hresolve hno
    refine ⟨none, store, hresolve, rfl, rfl, by simp, fun machineId keyId => ⟨by simp, ?_⟩⟩
    rintro ⟨secret, hpart, hid, hsecret, hview⟩
    exact absurd hview (hno machineId keyId secret hpart hid hsecret)
  cases hpart : partition? '.' presented with
  | none =>
    refine hnothing ?_ ?_
    · rw [resolveCredential, hpart]
    · rw [hpart]
      simp
  | some parts =>
    obtain ⟨keyId, secret⟩ := parts
    have hparts : ∀ {id s : String}, partition? '.' presented = some (id, s) → id = keyId ∧ s = secret := by
      intro id s h
      rw [hpart] at h
      obtain ⟨rfl, rfl⟩ := Prod.mk.inj (Option.some.inj h)
      exact ⟨rfl, rfl⟩
    by_cases hempty : keyId = "" ∨ secret = ""
    · refine hnothing ?_ fun machineId id s h hid hsecret => ?_
      · rw [resolveCredential, hpart]
        exact if_pos hempty
      · obtain ⟨rfl, rfl⟩ := hparts h
        exact absurd hempty (not_or.2 ⟨hid, hsecret⟩)
    · cases hcred : store.credentials keyId with
      | none =>
        refine hnothing ?_ fun machineId id s h _ _ => ?_
        · have hget : (FakeStore.credentialApi now).getCredential store keyId = some none := congrArg some hcred
          rw [resolveCredential, hpart]
          dsimp only
          rw [if_neg hempty, hget]
        · obtain ⟨rfl, rfl⟩ := hparts h
          rw [FakeStore.credentialView, hcred]
          simp
      | some cred =>
        obtain ⟨issued, hissued⟩ := hdigest keyId cred hcred
        have hcompare : compareDigest (digest.hexdigest secret) cred.secretHash =
            some (decide (digest.hexdigest secret = cred.secretHash)) :=
          compareDigest_of_ascii (digest.ascii _) (hissued ▸ digest.ascii issued)
        have hresolve : resolveCredential digest (FakeStore.credentialApi now) store presented =
            if cred.revokedAt.isSome then some (none, store)
            else if digest.hexdigest secret = cred.secretHash then
              some (some (machineAuth cred.machineId keyId), store.touchCredentialLastUsed now keyId)
            else some (none, store) := by
          have hget : (FakeStore.credentialApi now).getCredential store keyId = some (some cred) := congrArg some hcred
          rw [resolveCredential, hpart]
          dsimp only
          rw [if_neg hempty, hget]
          dsimp only
          rw [hcompare]
          by_cases hsame : digest.hexdigest secret = cred.secretHash
          · rw [if_pos hsame, decide_eq_true hsame]
            rfl
          · rw [if_neg hsame, decide_eq_false hsame]
        by_cases hrevoked : cred.revokedAt.isSome
        · refine hnothing (hresolve.trans (if_pos hrevoked)) fun machineId id s h _ _ hview => ?_
          obtain ⟨rfl, rfl⟩ := hparts h
          rw [FakeStore.credentialView, hcred] at hview
          obtain ⟨-, hview⟩ := Prod.mk.inj (Option.some.inj hview)
          rw [(Prod.mk.inj hview).2] at hrevoked
          cases hrevoked
        · rw [if_neg hrevoked] at hresolve
          by_cases hsame : digest.hexdigest secret = cred.secretHash
          · rw [if_pos hsame] at hresolve
            refine ⟨_, _, hresolve, credentialView_touch store now keyId, ?_, fun auth hauth => ?_,
              fun machineId id => ?_⟩
            · unfold FakeStore.touchCredentialLastUsed
              split
              · rfl
              · rfl
            · exact ⟨_, _, (Option.some.inj hauth).symm⟩
            · constructor
              · intro h
                obtain ⟨rfl, rfl⟩ := machineAuth_inj.1 (Option.some.inj h)
                have hopen : cred.revokedAt = none := by simpa using hrevoked
                refine ⟨secret, hpart, (not_or.1 hempty).1, (not_or.1 hempty).2, ?_⟩
                rw [FakeStore.credentialView, hcred, Option.map_some, hsame, hopen]
              · rintro ⟨s, h, -, -, hview⟩
                obtain ⟨rfl, rfl⟩ := hparts h
                rw [FakeStore.credentialView, hcred] at hview
                rw [(Prod.mk.inj (Option.some.inj hview)).1]
          · rw [if_neg hsame] at hresolve
            refine hnothing hresolve fun machineId id s h _ _ hview => ?_
            obtain ⟨rfl, rfl⟩ := hparts h
            rw [FakeStore.credentialView, hcred] at hview
            obtain ⟨-, hview⟩ := Prod.mk.inj (Option.some.inj hview)
            exact hsame (Prod.mk.inj hview).1.symm

/-! ### The history -/

/-- The store holds what the history says. -/
structure KeysRecorded (digest : Digest) (machines : List String) (history : List KeyRequest) (store : FakeStore) :
    Prop where
  machines_eq : store.machines = machines
  /-- The ids that are taken are those that were issued, with the digests of their secrets. -/
  taken : ∀ keyId view, store.credentialView keyId = some view → ∃ secret, view.2.1 = digest.hexdigest secret ∧
    ∃ r ∈ history, r.Issues machines view.1 keyId secret
  issued : ∀ r ∈ history, ∀ machineId keyId secret, r.Issues machines machineId keyId secret →
    ∃ revokedAt, store.credentialView keyId = some (machineId, digest.hexdigest secret, revokedAt)
  active : ∀ machineId keyId secret, Active machines history machineId keyId secret →
    store.credentialView keyId = some (machineId, digest.hexdigest secret, none)
  open_active : ∀ machineId keyId hash, store.credentialView keyId = some (machineId, hash, none) →
    ∃ secret, hash = digest.hexdigest secret ∧ Active machines history machineId keyId secret

theorem KeysRecorded.start (digest : Digest) (machines : List String) :
    KeysRecorded digest machines [] { FakeStore.empty with machines := machines } where
  machines_eq := rfl
  taken _ _ h := by cases h
  issued _ h := by cases h
  active _ _ _ h := absurd h Run.not_since_nil
  open_active _ _ _ h := by cases h

/-- A request that neither issues nor revokes. -/
private theorem KeysRecorded.unchanged (h : KeysRecorded digest machines history store) {r : KeyRequest}
    (hissues : ∀ machineId keyId secret, ¬ r.Issues machines machineId keyId secret)
    (hrevokes : ∀ machineId keyId, r.Revokes machineId keyId → ∀ hash revokedAt,
      store.credentialView keyId ≠ some (machineId, hash, revokedAt))
    (hview : store'.credentialView = store.credentialView) (hmachines : store'.machines = store.machines) :
    KeysRecorded digest machines (history ++ [r]) store' where
  machines_eq := hmachines.trans h.machines_eq
  taken keyId view hv := by
    rw [hview] at hv
    obtain ⟨secret, hhash, r', hr', hi⟩ := h.taken keyId view hv
    exact ⟨secret, hhash, r', List.mem_append_left _ hr', hi⟩
  issued r' hr' machineId keyId secret hi := by
    rcases List.mem_append.1 hr' with hr' | hr'
    · rw [hview]
      exact h.issued r' hr' machineId keyId secret hi
    · obtain rfl := List.mem_singleton.1 hr'
      exact absurd hi (hissues _ _ _)
  active machineId keyId secret ha := by
    rcases Run.since_append_singleton.1 ha with hi | ⟨ha, -⟩
    · exact absurd hi (hissues _ _ _)
    · rw [hview]
      exact h.active machineId keyId secret ha
  open_active machineId keyId hash hv := by
    rw [hview] at hv
    obtain ⟨secret, hhash, ha⟩ := h.open_active machineId keyId hash hv
    exact ⟨secret, hhash, Run.since_append_singleton.2 (Or.inr ⟨ha, fun hr => hrevokes _ _ hr _ _ hv⟩)⟩

private theorem KeysRecorded.revoke (h : KeysRecorded digest machines history store) (machineId keyId : String)
    (now : Int) : KeysRecorded digest machines (history ++ [.revoke machineId keyId now])
      (revokeCredential store machineId keyId now).1 := by
  have hview := credentialView_revoke store machineId keyId now
  have hkept : ∀ id owner hash revokedAt, store.credentialView id = some (owner, hash, revokedAt) →
      (revokeCredential store machineId keyId now).1.credentialView id =
        some (owner, hash, if id = keyId ∧ owner = machineId then revokedAt.or (some now) else revokedAt) := by
    intro id owner hash revokedAt hv
    rw [hview]
    dsimp only
    rw [hv]
    rfl
  have hback : ∀ id view, (revokeCredential store machineId keyId now).1.credentialView id = some view →
      ∃ revokedAt, store.credentialView id = some (view.1, view.2.1, revokedAt) ∧
        view.2.2 = if id = keyId ∧ view.1 = machineId then revokedAt.or (some now) else revokedAt := by
    intro id view hv
    rw [hview] at hv
    obtain ⟨⟨owner, hash, revokedAt⟩, hbefore, rfl⟩ := Option.map_eq_some_iff.1 hv
    exact ⟨revokedAt, hbefore, rfl⟩
  constructor
  case machines_eq =>
    rw [← h.machines_eq]
    unfold AgentOS.revokeCredential FakeStore.revokeCredential
    split
    · rfl
    · split
      · split
        · rfl
        · rfl
      · rfl
  case taken =>
    intro id view hv
    obtain ⟨revokedAt, hv, -⟩ := hback id view hv
    obtain ⟨secret, hhash, r, hr, hi⟩ := h.taken id _ hv
    exact ⟨secret, hhash, r, List.mem_append_left _ hr, hi⟩
  case issued =>
    intro r hr owner id secret hi
    rcases List.mem_append.1 hr with hr | hr
    · obtain ⟨revokedAt, hv⟩ := h.issued r hr owner id secret hi
      exact ⟨_, hkept _ _ _ _ hv⟩
    · obtain rfl := List.mem_singleton.1 hr
      exact hi.elim
  case active =>
    intro owner id secret ha
    rcases Run.since_append_singleton.1 ha with hi | ⟨ha, hr⟩
    · exact hi.elim
    · rw [hkept _ _ _ _ (h.active owner id secret ha), if_neg]
      rintro ⟨rfl, rfl⟩
      exact hr ⟨rfl, rfl⟩
  case open_active =>
    intro owner id hash hv
    obtain ⟨revokedAt, hv, hnone⟩ := hback id _ hv
    dsimp only at hv hnone
    by_cases hmine : id = keyId ∧ owner = machineId
    · rw [if_pos hmine] at hnone
      cases revokedAt with
      | none => cases hnone
      | some time => cases hnone
    · rw [if_neg hmine] at hnone
      subst hnone
      obtain ⟨secret, hhash, ha⟩ := h.open_active owner id hash hv
      refine ⟨secret, hhash, Run.since_append_singleton.2 (Or.inr ⟨ha, fun hr => hmine ⟨hr.2.symm, hr.1.symm⟩⟩)⟩

private theorem KeysRecorded.issue (h : KeysRecorded digest machines history store) {machineId : String}
    (label : Option String)
    {minted : Minted} (now : Int) (hmachine : machineId ∈ machines)
    (hfree : store.credentialView minted.keyId = none) :
    KeysRecorded digest machines (history ++ [.issue machineId label minted now])
      (store.insertCredential now minted.keyId machineId (digest.hexdigest minted.secret) label) := by
  have hview := credentialView_insert store now minted.keyId machineId (digest.hexdigest minted.secret) label
  have hself : (store.insertCredential now minted.keyId machineId (digest.hexdigest minted.secret) label).credentialView
      minted.keyId = some (machineId, digest.hexdigest minted.secret, none) := by
    rw [hview, Function.update_self]
  -- the ids of before are not the new one
  have hother : ∀ id view, store.credentialView id = some view →
      (store.insertCredential now minted.keyId machineId (digest.hexdigest minted.secret) label).credentialView id =
        some view := by
    intro id view hv
    rw [hview, Function.update_of_ne, hv]
    rintro rfl
    cases hfree.symm.trans hv
  constructor
  case machines_eq => exact h.machines_eq
  case taken =>
    intro id view hv
    by_cases hid : id = minted.keyId
    · subst hid
      obtain rfl := Option.some.inj (hself.symm.trans hv)
      exact ⟨minted.secret, rfl, _, List.mem_append_right _ List.mem_cons_self, hmachine, rfl, rfl, rfl⟩
    · rw [hview, Function.update_of_ne hid] at hv
      obtain ⟨secret, hhash, r, hr, hi⟩ := h.taken id view hv
      exact ⟨secret, hhash, r, List.mem_append_left _ hr, hi⟩
  case issued =>
    intro r hr owner id secret hi
    rcases List.mem_append.1 hr with hr | hr
    · obtain ⟨revokedAt, hv⟩ := h.issued r hr owner id secret hi
      exact ⟨revokedAt, hother _ _ hv⟩
    · obtain rfl := List.mem_singleton.1 hr
      obtain ⟨-, rfl, rfl, rfl⟩ := hi
      exact ⟨none, hself⟩
  case active =>
    intro owner id secret ha
    rcases Run.since_append_singleton.1 ha with hi | ⟨ha, -⟩
    · obtain ⟨-, rfl, rfl, rfl⟩ := hi
      exact hself
    · exact hother _ _ (h.active owner id secret ha)
  case open_active =>
    intro owner id hash hv
    by_cases hid : id = minted.keyId
    · subst hid
      obtain ⟨rfl, hrest⟩ := Prod.mk.inj (Option.some.inj (hself.symm.trans hv))
      obtain ⟨rfl, -⟩ := Prod.mk.inj hrest
      exact ⟨minted.secret, rfl, Run.since_append_singleton.2 (Or.inl ⟨hmachine, rfl, rfl, rfl⟩)⟩
    · rw [hview, Function.update_of_ne hid] at hv
      obtain ⟨secret, hhash, ha⟩ := h.open_active owner id hash hv
      exact ⟨secret, hhash, Run.since_append_singleton.2 (Or.inr ⟨ha, fun hr => hr⟩)⟩

/-- What `_resolve_auth` answers where the comparison with the configured keys does not raise. -/
structure Resolved (digest : Digest) (now : Int) (header : String) (expected : List String) (store : FakeStore)
    (matched : Bool) (result : Option ResolvedAuth) (store' : FakeStore) : Prop where
  resolves : resolveAuth digest (FakeStore.credentialApi now) header expected store = some (result, store')
  view : store'.credentialView = store.credentialView
  machines : store'.machines = store.machines
  nothing_else : ∀ auth, result = some auth → auth = adminAuth ∨ ∃ machineId keyId, auth = machineAuth machineId keyId
  admin : result = some adminAuth ↔ matched = true
  machine : ∀ machineId keyId, result = some (machineAuth machineId keyId) ↔
    matched = false ∧ ∃ token secret, Presents header token ∧ partition? '.' token = some (keyId, secret) ∧
      keyId ≠ "" ∧ secret ≠ "" ∧ store.credentialView keyId = some (machineId, digest.hexdigest secret, none)

private theorem KeysRecorded.resolved (h : KeysRecorded digest machines history store) (now : Int)
    {expected : List String} {matched : Bool} (hmatched : authorized header expected = some matched) :
    ∃ result store', Resolved digest now header expected store matched result store' := by
  have hdigest : ∀ id cred, store.credentials id = some cred → ∃ secret, cred.secretHash = digest.hexdigest secret := by
    intro id cred hcred
    have hview : store.credentialView id = some (cred.machineId, cred.secretHash, cred.revokedAt) := by
      rw [FakeStore.credentialView, hcred]
      rfl
    obtain ⟨secret, hhash, -⟩ := h.taken id _ hview
    exact ⟨secret, hhash⟩
  cases matched with
  | true =>
    refine ⟨some adminAuth, store, ?_, rfl, rfl, fun auth hauth => Or.inl (Option.some.inj hauth).symm, by simp, ?_⟩
    · rw [resolveAuth, hmatched]
    · intro machineId keyId
      refine iff_of_false (fun hauth => ?_) fun hfalse => Bool.noConfusion hfalse.1
      exact machineAuth_ne_admin machineId keyId (Option.some.inj hauth).symm
  | false =>
    have hnothing : resolveAuth digest (FakeStore.credentialApi now) header expected store = some (none, store) →
        (∀ token, Presents header token → ∀ keyId secret, partition? '.' token ≠ some (keyId, secret)) →
        ∃ result store', Resolved digest now header expected store false result store' := by
      intro hresolve hno
      refine ⟨none, store, hresolve, rfl, rfl, by simp, iff_of_false (by simp) Bool.false_ne_true,
        fun machineId keyId => ?_⟩
      refine iff_of_false (by simp) ?_
      rintro ⟨-, token, secret, hpresents, hpart, -⟩
      exact hno token hpresents keyId secret hpart
    cases hprefix : dropPrefix? bearerPrefix header with
    | none =>
      refine hnothing ?_ fun token hpresents => absurd hpresents (not_presents hprefix)
      rw [resolveAuth, hmatched, hprefix]
    | some rest =>
      by_cases hempty : strip rest = ""
      · refine hnothing ?_ fun token hpresents keyId secret => ?_
        · rw [resolveAuth, hmatched, hprefix]
          exact if_pos hempty
        · rw [(presents_iff hprefix).1 hpresents, hempty]
          simp [partition?, cutAt]
      · obtain ⟨result, store', hres⟩ := exists_resolved now (strip rest) hdigest
        refine ⟨result, store', ?_, hres.view, hres.machines, fun auth hauth => Or.inr (hres.machine_only auth hauth),
          ?_, fun machineId keyId => ?_⟩
        · rw [resolveAuth, hmatched, hprefix]
          dsimp only
          rw [if_neg hempty, hres.resolves]
        · refine iff_of_false (fun hauth => ?_) Bool.false_ne_true
          obtain ⟨machineId, keyId, heq⟩ := hres.machine_only _ hauth
          exact machineAuth_ne_admin machineId keyId heq.symm
        · rw [hres.iff]
          constructor
          · rintro ⟨secret, hpart, hid, hsecret, hview⟩
            exact ⟨rfl, _, secret, (presents_iff hprefix).2 rfl, hpart, hid, hsecret, hview⟩
          · rintro ⟨-, token, secret, hpresents, hpart, hid, hsecret, hview⟩
            obtain rfl := (presents_iff hprefix).1 hpresents
            exact ⟨secret, hpart, hid, hsecret, hview⟩

/-- One request. -/
theorem KeysRecorded.next (h : KeysRecorded digest machines history store) {expected : List String} {r : KeyRequest}
    (hnext : r.next digest expected store = some store') : KeysRecorded digest machines (history ++ [r]) store' := by
  cases r with
  | issue machineId label minted now =>
    rw [KeyRequest.next] at hnext
    split at hnext
    · cases hnext
    case isFalse hfree =>
      obtain rfl := Option.some.inj hnext
      unfold issueCredential
      split
      case isTrue hexists =>
        have hmachine : machineId ∈ machines := by
          rw [← h.machines_eq]
          exact of_decide_eq_true hexists
        refine h.issue label now hmachine ?_
        rw [FakeStore.credentialView, Option.not_isSome_iff_eq_none.1 hfree]
        rfl
      case isFalse hunknown =>
        refine h.unchanged (fun m keyId secret hi => hunknown ?_) (fun _ _ hr => hr.elim) rfl rfl
        rw [FakeStore.machineExists, h.machines_eq]
        exact decide_eq_true hi.1
  | revoke machineId keyId now =>
    obtain rfl := Option.some.inj hnext
    exact h.revoke machineId keyId now
  | present header now =>
    obtain rfl := Option.some.inj hnext
    have hsame : ∀ store', store'.credentialView = store.credentialView → store'.machines = store.machines →
        KeysRecorded digest machines (history ++ [.present header now]) store' :=
      fun _ => h.unchanged (fun _ _ _ hi => hi) fun _ _ hr => hr.elim
    cases hmatched : authorized header expected with
    | none =>
      rw [resolveAuth, hmatched]
      exact hsame store rfl rfl
    | some matched =>
      obtain ⟨result, store', hres⟩ := h.resolved now hmatched
      rw [hres.resolves]
      exact hsame store' hres.view hres.machines

theorem KeysRecorded.run {expected : List String} (hrun : Run.exec (KeyRequest.next digest expected)
      { FakeStore.empty with machines := machines } history = some store) :
    KeysRecorded digest machines history store := by
  induction history using List.reverseRecOn generalizing store with
  | nil =>
    obtain rfl := Option.some.inj hrun
    exact KeysRecorded.start digest machines
  | append_singleton history r ih =>
    obtain ⟨before, hbefore, hlast⟩ := Run.exec_append.1 hrun
    obtain ⟨after, hnext, hnil⟩ := Run.exec_cons.1 hlast
    obtain rfl := Option.some.inj hnil
    exact (ih hbefore).next hnext

/-! ### Revoked credentials -/

/-- A `key_id` is issued once. -/
private theorem issued_once {expected : List String} {before after : List KeyRequest} {r r' : KeyRequest}
    {m m' keyId secret secret' : String} (hrun : Run.exec (KeyRequest.next digest expected)
      { FakeStore.empty with machines := machines } (before ++ r' :: after) = some store)
    (hr : r ∈ before) (hissues : r.Issues machines m keyId secret) : ¬ r'.Issues machines m' keyId secret' := by
  intro hissues'
  obtain ⟨between, hbefore, hrest⟩ := Run.exec_append.1 hrun
  obtain ⟨next, hnext, -⟩ := Run.exec_cons.1 hrest
  obtain ⟨revokedAt, hview⟩ := (KeysRecorded.run hbefore).issued r hr m keyId secret hissues
  cases r' with
  | issue machineId label minted now =>
    obtain ⟨-, -, rfl, -⟩ := hissues'
    have htaken : (between.credentials minted.keyId).isSome := by
      rw [FakeStore.credentialView] at hview
      obtain ⟨cred, hcred, -⟩ := Option.map_eq_some_iff.1 hview
      rw [hcred]
      rfl
    rw [KeyRequest.next, if_pos htaken] at hnext
    cases hnext
  | revoke machineId keyId now => exact hissues'
  | present header now => exact hissues'

/-- What was issued and then revoked is not active. -/
theorem not_active_of_revoked {expected : List String} (hrun : Run.exec (KeyRequest.next digest expected)
      { FakeStore.empty with machines := machines } history = some store) {before after : List KeyRequest}
    {m keyId secret secret' : String} {now : Int} (hhistory : history = before ++ .revoke m keyId now :: after)
    (hissued : ∃ r ∈ before, r.Issues machines m keyId secret) : ¬ Active machines history m keyId secret' := by
  rintro ⟨before', r', after', hhistory', hissues', hafter'⟩
  obtain ⟨r, hr, hissues⟩ := hissued
  rw [hhistory'] at hrun hhistory
  rcases List.append_eq_append_iff.1 hhistory with ⟨x, hbefore, hrest⟩ | ⟨x, hbefore, hrest⟩
  · -- the issue comes first, so the revocation is behind it
    cases x with
    | nil =>
      obtain ⟨rfl, -⟩ := List.cons.inj hrest
      exact hissues'
    | cons c x =>
      obtain ⟨-, rfl⟩ := List.cons.inj hrest
      exact hafter' _ (List.mem_append_right _ List.mem_cons_self) ⟨rfl, rfl⟩
  · exact issued_once hrun (hbefore ▸ List.mem_append_left _ hr) hissues hissues'

/-! ### The result -/

theorem dot_notMem_keyId (minted : Minted) : '.' ∉ minted.keyId.toList := by
  intro h
  rw [Minted.keyId, String.toList_append] at h
  rcases List.mem_append.1 h with h | h
  · exact absurd h (by decide)
  · obtain ⟨timestampMs, randomness, hulid⟩ := minted.ulid_eq
    exact absurd (mem_of_generateUlid hulid _ h) (by decide)

theorem keyId_ne_empty (minted : Minted) : minted.keyId ≠ "" := by
  intro h
  have hlength := congrArg (fun text : String => text.toList.length) h
  rw [Minted.keyId] at hlength
  simp at hlength

theorem secret_ne_empty (minted : Minted) : minted.secret ≠ "" := by
  intro h
  have hlength := minted.secret_length
  rw [h] at hlength
  cases hlength

/-- The token of an active credential is taken apart as it was put together. -/
private theorem partition_of_active {machineId keyId secret : String}
    (h : Active machines history machineId keyId secret) :
    partition? '.' (keyId ++ "." ++ secret) = some (keyId, secret) ∧ keyId ≠ "" ∧ secret ≠ "" := by
  obtain ⟨before, r, after, -, hissues, -⟩ := h
  cases r with
  | issue m label minted now =>
    obtain ⟨-, -, rfl, rfl⟩ := hissues
    refine ⟨partition?_eq_some.2 ⟨rfl, dot_notMem_keyId minted⟩, keyId_ne_empty minted, secret_ne_empty minted⟩
  | revoke m id now => exact hissues.elim
  | present header now => exact hissues.elim

/-- **Authentication is exact just in case the comparison does not raise.**  After every history of issues, revocations
and presented headers, `_resolve_auth` answers a header as it should if and only if no key is configured, or the token
of the header, if it has one, and the configured keys are ASCII. -/
theorem auth_exact_iff (hrun : Run.exec (KeyRequest.next digest (parseKeys raw))
      { FakeStore.empty with machines := machines } history = some store) (header : String) (now : Int)
    (hinj : Set.InjOn digest.hexdigest (secretsInPlay history header)) :
    (∃ result store', resolveAuth digest (FakeStore.credentialApi now) header (parseKeys raw) store =
      some (result, store') ∧ ExactAuth machines raw history header result) ↔ Comparable raw header := by
  have hrecorded := KeysRecorded.run hrun
  rw [← authorized_isSome]
  constructor
  · rintro ⟨result, store', hresolve, -⟩
    cases hmatched : authorized header (parseKeys raw) with
    | none =>
      rw [resolveAuth, hmatched] at hresolve
      cases hresolve
    | some matched => rfl
  · intro hsome
    obtain ⟨matched, hmatched⟩ := Option.isSome_iff_exists.1 hsome
    have hkey := authorized_eq hmatched
    obtain ⟨result, store', hres⟩ := hrecorded.resolved now hmatched
    have hmachine : ∀ machineId keyId, result = some (machineAuth machineId keyId) ↔ ¬ PresentsKey raw header ∧
        ∃ secret, Presents header (keyId ++ "." ++ secret) ∧ Active machines history machineId keyId secret := by
      intro machineId keyId
      rw [hres.machine, ← hkey, Bool.not_eq_true]
      refine and_congr_right fun _ => ⟨?_, ?_⟩
      · rintro ⟨token, secret, hpresents, hpart, -, -, hview⟩
        obtain ⟨issued, hhash, hactive⟩ := hrecorded.open_active _ _ _ hview
        have hmem : issued ∈ secretsInPlay history header := by
          obtain ⟨before, r, after, rfl, hissues, -⟩ := hactive
          cases r with
          | issue m label minted now =>
            exact Or.inl ⟨m, label, minted, now, List.mem_append_right _ List.mem_cons_self, hissues.2.2.2⟩
          | revoke m id now => exact hissues.elim
          | present header now => exact hissues.elim
        obtain rfl : secret = issued := hinj (Or.inr ⟨token, keyId, hpresents, hpart⟩) hmem hhash
        refine ⟨secret, ?_, hactive⟩
        rw [(partition?_eq_some.1 hpart).1] at hpresents
        exact hpresents
      · rintro ⟨secret, hpresents, hactive⟩
        obtain ⟨hpart, hid, hsecret⟩ := partition_of_active hactive
        exact ⟨_, secret, hpresents, hpart, hid, hsecret, hrecorded.active _ _ _ hactive⟩
    refine ⟨result, store', hres.resolves, ⟨hres.admin.trans hkey, hmachine, hres.nothing_else, ?_⟩⟩
    intro before after machineId keyId secret time hhistory hissued m hresult
    obtain ⟨-, secret', -, hactive⟩ := (hmachine m keyId).1 hresult
    -- the credential is of the machine that it was issued for
    obtain ⟨r, hr, hissues⟩ := hissued
    have hmem : r ∈ history := hhistory ▸ List.mem_append_left _ hr
    obtain ⟨revokedAt, hview⟩ := hrecorded.issued r hmem machineId keyId secret hissues
    obtain ⟨rfl, -⟩ := Prod.mk.inj (Option.some.inj (hview.symm.trans (hrecorded.active _ _ _ hactive)))
    exact not_active_of_revoked hrun hhistory ⟨r, hr, hissues⟩ hactive

private theorem urlsafe : "q3Yk0vZB1c8sT-7uWlXo2aR9mDf5hJ4eGnPi6_LtQbU".toList.all
    (fun c => c.isAlphanum ∨ c = '-' ∨ c = '_') = true := by decide +kernel

private def minted : Minted where
  ulid := "01K742SG003WQ3TK2VD9WRG082"
  secret := "q3Yk0vZB1c8sT-7uWlXo2aR9mDf5hJ4eGnPi6_LtQbU"
  ulid_eq := ⟨1760000000000, 0x1f2e3d4c5b6a79880102#80, by decide +kernel⟩
  secret_length := by decide +kernel
  secret_urlsafe := fun c hc => of_decide_eq_true (List.all_eq_true.1 urlsafe c hc)

private def secretDigest : Digest where
  hexdigest _ := "ce9e2424ff667bd88e2247c24712e3a46bdd1e088d2c3d3475a085cab201be19"
  ascii _ := by decide +kernel

private def issued : KeyRequest := .issue "machine_a" none minted 0

private def bearer : String := "Bearer key_01K742SG003WQ3TK2VD9WRG082.q3Yk0vZB1c8sT-7uWlXo2aR9mDf5hJ4eGnPi6_LtQbU"

private theorem presents_bearer {token : String} (h : Presents bearer token) :
    token = minted.keyId ++ "." ++ minted.secret := by
  have hprefix : dropPrefix? bearerPrefix bearer = some (minted.keyId ++ "." ++ minted.secret) := by decide +kernel
  rw [(presents_iff hprefix).1 h]
  decide +kernel

/-- A credential of `machine_a`, presented next to a configured key. -/
theorem issued_credential_authenticates : ∃ store, Run.exec (KeyRequest.next secretDigest (parseKeys (some "admin")))
      { FakeStore.empty with machines := ["machine_a"] } [issued] = some store ∧
    ∃ result store', resolveAuth secretDigest (FakeStore.credentialApi 1) bearer (parseKeys (some "admin")) store =
      some (result, store') ∧ ExactAuth ["machine_a"] (some "admin") [issued] bearer result := by
  have hascii : Comparable (some "admin") bearer := by
    intro token hpresents _ key hkey
    have hall : ∀ key ∈ parseKeys (some "admin"), isascii key = true := by decide +kernel
    rw [presents_bearer hpresents]
    exact ⟨by decide +kernel, hall key hkey⟩
  refine ⟨_, rfl, (auth_exact_iff rfl bearer 1 ?_).2 hascii⟩
  have hsecret : ∀ secret ∈ secretsInPlay [issued] bearer, secret = minted.secret := by
    rintro secret (⟨machineId, label, drawn, now, hmem, rfl⟩ | ⟨token, keyId, hpresents, hpart⟩)
    · obtain ⟨-, -, rfl, -⟩ := KeyRequest.issue.inj (List.mem_singleton.1 hmem)
      rfl
    · have hcut : partition? '.' (minted.keyId ++ "." ++ minted.secret) = some (minted.keyId, minted.secret) :=
        partition?_eq_some.2 ⟨rfl, dot_notMem_keyId minted⟩
      rw [presents_bearer hpresents, hcut] at hpart
      exact (Prod.mk.inj (Option.some.inj hpart)).2.symm
  intro secret hs secret' hs' _
  rw [hsecret secret hs, hsecret secret' hs']

/-- A token that is not ASCII raises, and so does every token next to a configured key that is not. -/
theorem auth_raises : (¬ ∃ result store', resolveAuth secretDigest (FakeStore.credentialApi 0) "Bearer é"
      (parseKeys (some "k")) FakeStore.empty = some (result, store') ∧
        ExactAuth [] (some "k") [] "Bearer é" result) ∧
    (resolveAuth secretDigest (FakeStore.credentialApi 0) "Bearer k" (parseKeys (some "k,clé"))
      FakeStore.empty).isNone := by
  have hnone : (resolveAuth secretDigest (FakeStore.credentialApi 0) "Bearer é" (parseKeys (some "k"))
      FakeStore.empty).isNone = true := by decide +kernel
  refine ⟨?_, by decide +kernel⟩
  rintro ⟨result, store', hresolve, -⟩
  rw [hresolve] at hnone
  cases hnone

end AgentOS
