import AgentOS.Lib.Cut
import AgentOS.Python.Case

/-!
# Fingerprints of remotes

`canonical_remote_url` turns the URL of a git remote into the fingerprint by which the checkouts of one repository are
recognised.  `canonical_remote_iff` says for which hosts, paths and users every form of the URL has the same
fingerprint: then it is `host/path` in lower case.
-/

namespace AgentOS

open Py Cut

/-- `[^/@:]`. -/
def isScpUser (c : CodePoint) : Bool := c ≠ code '/' ∧ c ≠ code '@' ∧ c ≠ code ':'

/-- `[^:/]`. -/
def isScpHost (c : CodePoint) : Bool := c ≠ code ':' ∧ c ≠ code '/'

/-- `_SCP_REMOTE.match` on stripped text: the host and the path.  The dot of the pattern is every character but a
newline. -/
def scpRemote (s : Str) : Option (Str × Str) :=
  match s.dropWhile isScpUser with
  | [] => none
  | c :: rest =>
    if c = code '@' ∧ s.takeWhile isScpUser ≠ [] then
      match rest.dropWhile isScpHost with
      | [] => none
      | d :: path =>
        if d = code ':' ∧ rest.takeWhile isScpHost ≠ [] ∧ path ≠ [] ∧ code '\n' ∉ path then
          some (rest.takeWhile isScpHost, path)
        else none
    else none

/-- What is behind the first `sep`, or all of it: `s.split(sep, 1)[1] if sep in s else s`. -/
def behindFirst (sep s : Str) : Str := ((cut sep s).map Prod.snd).getD s

/-- The last two steps: trailing slashes and one `.git` are dropped. -/
def withoutSuffix (s : Str) : Str :=
  let s := s.rdropWhile (· = code '/')
  if lit ".git" <:+ s then s.take (s.length - 4) else s

/-- The host and what is behind it, of the scp form or without the scheme and the credentials of a URL. -/
def location (s : Str) : Str :=
  match scpRemote s with
  | some (host, path) =>
    if lit "://" <:+: s then behindFirst (lit "@") (behindFirst (lit "://") s) else host ++ code '/' :: path
  | none => behindFirst (lit "@") (behindFirst (lit "://") s)

variable (table : CaseTable)

/-- `canonical_remote_url`. -/
def canonicalRemoteUrl (remote : Str) : Str :=
  let s := lower table (Py.strip remote)
  if s = [] then [] else withoutSuffix (location s)

/-! ### Remotes of one repository -/

/-- A repository on a host, with a user-info part for the URL forms and a user for the scp form. -/
structure Remote where
  host : Str
  path : Str
  userInfo : Str
  scpUser : Str

/-- What the parts may consist of. -/
structure Remote.Legal (r : Remote) : Prop where
  host_ne : r.host ≠ []
  host_ascii : ∀ c ∈ r.host, c.val < 0x80
  host_chars : ∀ c ∈ r.host, c ≠ code '/' ∧ c ≠ code ':' ∧ c ≠ code '@' ∧ Py.isspace c = false
  path_ne : r.path ≠ []
  path_ascii : ∀ c ∈ r.path, c.val < 0x80
  path_space : ∀ c ∈ r.path, Py.isspace c = false
  path_head : r.path.head? ≠ some (code '/')
  path_last : r.path.getLast? ≠ some (code '/')
  path_git : ¬ lit ".git" <:+ r.path
  userInfo_chars : code '/' ∉ r.userInfo
  scpUser_chars : ∀ c ∈ r.scpUser, c ≠ code '/' ∧ c ≠ code ':' ∧ c ≠ code '@'

def schemes : List Str := [lit "https://", lit "ssh://", lit "git://"]

/-- The URL forms without and with the user-info part, and the scp form. -/
def Remote.plainForms (r : Remote) : List Str :=
  schemes.map (· ++ (r.host ++ code '/' :: r.path)) ++
    schemes.map (· ++ (r.userInfo ++ code '@' :: (r.host ++ code '/' :: r.path))) ++
    [r.scpUser ++ code '@' :: (r.host ++ code ':' :: r.path)]

/-- With and without `.git`, with and without a trailing slash. -/
def endings : List Str := [[], lit "/", lit ".git", lit ".git/"]

def Remote.forms (r : Remote) : List Str := r.plainForms.flatMap fun form => endings.map (form ++ ·)

/-- The host and the path, up to letter case. -/
def Remote.repository (r : Remote) : Str × Str := (r.host.map asciiLower, r.path.map asciiLower)

/-- `s` is the fingerprint of a remote as promised: every form of it has the same, a part of a user-info part is in the
fingerprint only if it is in the host or the path, and the fingerprint is its own. -/
structure Fingerprint (r : Remote) (s : Str) : Prop where
  same : ∀ form ∈ r.forms, canonicalRemoteUrl table form = s
  hidden : ∀ part, part <:+: s → part <:+: lower table r.userInfo ∨ part <:+: lower table r.scpUser →
    part <:+: r.repository.1 ∨ part <:+: r.repository.2
  fixed : canonicalRemoteUrl table s = s

/-- What the code takes for granted: the path holds neither `@` nor `://` and does not end in `.git` in any case, the
user-info part holds no `@`, and the user of the scp form is not blank. -/
structure Remote.Clean (r : Remote) : Prop where
  path_at : code '@' ∉ r.path
  path_scheme : ¬ lit "://" <:+: r.path
  path_git : ¬ lit ".git" <:+ r.path.map asciiLower
  userInfo_at : code '@' ∉ r.userInfo
  scpUser_blank : ¬ ∀ c ∈ r.scpUser, Py.isspace c = true

/-! ### The last steps -/

variable {table} {r : Remote}

/-- `host/path` in lower case. -/
def Remote.key (r : Remote) : Str := r.repository.1 ++ code '/' :: r.repository.2

private theorem withoutSuffix_plain {s : Str} (h : s.getLast? ≠ some (code '/')) (hgit : ¬ lit ".git" <:+ s) :
    withoutSuffix s = s ∧ withoutSuffix (s ++ lit "/") = s := by
  have hself : s.rdropWhile (· = code '/') = s := by
    rw [List.rdropWhile_eq_self_iff]
    intro hne hlast
    exact h (List.getLast?_eq_some_getLast hne ▸ congrArg some (of_decide_eq_true hlast))
  have hslash : (s ++ lit "/").rdropWhile (· = code '/') = s := by
    rw [show s ++ lit "/" = s ++ [code '/'] from rfl, List.rdropWhile_concat_pos _ _ _ (by simp), hself]
  constructor
  · rw [withoutSuffix, hself]
    exact if_neg hgit
  · rw [withoutSuffix, hslash]
    exact if_neg hgit

private theorem withoutSuffix_git (s : Str) :
    withoutSuffix (s ++ lit ".git") = s ∧ withoutSuffix (s ++ lit ".git/") = s := by
  have hself : (s ++ lit ".git").rdropWhile (· = code '/') = s ++ lit ".git" := by
    rw [show s ++ lit ".git" = (s ++ lit ".gi") ++ [code 't'] by rw [List.append_assoc]; rfl]
    exact List.rdropWhile_concat_neg _ _ _ (by decide)
  have hslash : (s ++ lit ".git/").rdropWhile (· = code '/') = s ++ lit ".git" := by
    rw [show s ++ lit ".git/" = (s ++ lit ".git") ++ [code '/'] by rw [List.append_assoc]; rfl,
      List.rdropWhile_concat_pos _ _ _ (by simp), hself]
  have hdrop : (s ++ lit ".git").take ((s ++ lit ".git").length - 4) = s := by
    have hlength : s.length + (lit ".git").length - 4 = s.length := Nat.add_sub_cancel_right s.length 4
    rw [List.length_append, hlength, List.take_left]
  constructor
  · rw [withoutSuffix, hself]
    exact (if_pos (List.suffix_append _ _)).trans hdrop
  · rw [withoutSuffix, hslash]
    exact (if_pos (List.suffix_append _ _)).trans hdrop

/-- A trailing `.git` of the path itself is dropped as well. -/
private theorem length_withoutSuffix (s : Str) : (withoutSuffix s).length ≤ s.length := by
  have hle : (s.rdropWhile (· = code '/')).length ≤ s.length := (List.rdropWhile_prefix _ _).length_le
  unfold withoutSuffix
  dsimp only
  split
  · exact (List.length_take_le' _ _).trans hle
  · exact hle

private theorem length_behindFirst_le (sep s : Str) : (behindFirst sep s).length ≤ s.length := by
  unfold behindFirst
  cases hcut : cut sep s with
  | none => exact le_rfl
  | some parts =>
    have hlength := congrArg List.length (eq_append_of_cut hcut)
    rw [List.length_append] at hlength
    show parts.2.length ≤ s.length
    omega

/-! ### The URL forms -/

private theorem behindFirst_of_notMem {s : Str} (h : code '@' ∉ s) : behindFirst (lit "@") s = s := by
  have hnone : cut (lit "@") s = none :=
    cut_eq_none_iff.2 fun hin => h (hin.subset (List.mem_singleton_self (code '@')))
  rw [behindFirst, hnone]
  rfl

private theorem behindFirst_at {a : Str} (h : code '@' ∉ a) (b : Str) :
    behindFirst (lit "@") (a ++ code '@' :: b) = b := by
  have hcut : cut (lit "@") (a ++ code '@' :: b) = some (a, b) := cut_of_notMem h [] b
  rw [behindFirst, hcut]
  rfl

private theorem location_url {s : Str} (h : lit "://" <:+: s) :
    location s = behindFirst (lit "@") (behindFirst (lit "://") s) := by
  unfold location
  split
  · exact if_pos h
  · rfl

/-- The letters of a scheme. -/
private def isLetter (c : CodePoint) : Bool := code 'a' ≤ c ∧ c ≤ code 'z'

private theorem letter_spec {c : CodePoint} (h : isLetter c = true) :
    c.val < 0x80 ∧ asciiLower c = c ∧ c ≠ code ':' ∧ Py.isspace c = false := by
  have hall : ∀ n < 0x80, isLetter (Fin.ofNat 0x110000 n) = true → asciiLower (Fin.ofNat 0x110000 n) =
    Fin.ofNat 0x110000 n ∧
      Fin.ofNat 0x110000 n ≠ code ':' ∧ Py.isspace (Fin.ofNat 0x110000 n) = false := by decide
  have hle : c.val ≤ 0x7A := (of_decide_eq_true h).2
  have hc : Fin.ofNat 0x110000 c.val = c := Fin.ext (Nat.mod_eq_of_lt c.isLt)
  exact ⟨by omega, hc ▸ hall c.val (by omega) (hc.symm ▸ h)⟩

/-- A URL form: the scheme is dropped, and what is in front of the first `@`. -/
private theorem canonical_url {scheme : Str} (hscheme : scheme ∈ schemes)
    {body : Str} {z : CodePoint} (hz : body.getLast? = some z) (hspace : Py.isspace z = false) :
    canonicalRemoteUrl table (scheme ++ body) = withoutSuffix (behindFirst (lit "@") (lower table body)) := by
  obtain ⟨a, name, hname, rfl⟩ : ∃ a name, (a :: name).all isLetter = true ∧ scheme = a :: name ++ lit "://" := by
    simp only [schemes, List.mem_cons, List.not_mem_nil, or_false] at hscheme
    rcases hscheme with rfl | rfl | rfl
    · exact ⟨code 'h', lit "ttps", by decide, rfl⟩
    · exact ⟨code 's', lit "sh", by decide, rfl⟩
    · exact ⟨code 'g', lit "it", by decide, rfl⟩
  have hletter : ∀ c ∈ a :: name, c.val < 0x80 ∧ asciiLower c = c ∧ c ≠ code ':' ∧ Py.isspace c = false := fun c hc =>
    letter_spec (List.all_eq_true.1 hname c hc)
  have hstrip : Py.strip (a :: name ++ lit "://" ++ body) = a :: name ++ lit "://" ++ body := by
    have hlast : (a :: name ++ lit "://" ++ body).getLast? = some z := by
      rw [List.getLast?_append, hz]
      rfl
    refine strip_of_ends ?_ ?_
    · rintro c ⟨⟩
      exact (hletter a List.mem_cons_self).2.2.2
    · intro c hc
      rw [hlast] at hc
      exact Option.some.inj hc ▸ hspace
  have hlower : lower table (a :: name ++ lit "://" ++ body) = a :: name ++ (lit "://" ++ lower table body) := by
    have hname : lower table (a :: name ++ lit ":/") = a :: name ++ lit ":/" := by
      rw [lower_ascii, List.map_append, List.map_congr_left fun c hc => (hletter c hc).2.1, List.map_id']
      · rfl
      · intro c hc
        rcases List.mem_append.1 hc with hc | hc
        · exact (hletter c hc).1
        · have hsign : c = code ':' ∨ c = code '/' := by simpa [lit] using hc
          rcases hsign with rfl | rfl
          · decide
          · decide
    have hsplit : ∀ rest, a :: name ++ lit "://" ++ rest = a :: name ++ lit ":/" ++ code '/' :: rest := by
      intro rest
      rw [List.append_assoc, List.append_assoc]
      rfl
    rw [hsplit, lower_cut (Or.inr rfl), hname, ← hsplit, List.append_assoc]
  have hcut : cut (lit "://") (a :: name ++ (lit "://" ++ lower table body)) = some (a :: name, lower table body) :=
    cut_of_notMem (fun hmem => (hletter _ hmem).2.2.1 rfl) _ _
  have hbehind : behindFirst (lit "://") (a :: name ++ (lit "://" ++ lower table body)) = lower table body := by
    rw [behindFirst, hcut]
    rfl
  have hinfix : lit "://" <:+: a :: name ++ (lit "://" ++ lower table body) := ⟨a :: name, lower table body, by simp⟩
  rw [canonicalRemoteUrl, hstrip, hlower, if_neg (by simp), location_url hinfix, hbehind]

/-! ### The scp form -/

private theorem cut_scheme_scp {user host : Str} (huser : code ':' ∉ user) (hhost : code ':' ∉ host) {rest : Str}
    (hrest : rest.head? ≠ some (code '/')) :
    cut (lit "://") (user ++ code '@' :: (host ++ code ':' :: rest)) =
      (cut (lit "://") rest).map fun parts => (user ++ code '@' :: (host ++ code ':' :: parts.1), parts.2) := by
  have hstart : ¬ lit "://" <+: code ':' :: rest := by
    intro h
    obtain ⟨-, hslash⟩ := List.cons_prefix_cons.1 h
    cases rest with
    | nil => exact absurd (List.eq_nil_of_prefix_nil hslash) (by decide)
    | cons c rest => exact hrest (congrArg some (List.cons_prefix_cons.1 hslash).1.symm)
  have hfront : code ':' ∉ user ++ code '@' :: host := by
    simp only [List.mem_append, List.mem_cons, not_or]
    exact ⟨huser, by decide, hhost⟩
  have hcolon : cut (lit "://") (code ':' :: rest) =
      (cut (lit "://") rest).map fun parts => (code ':' :: parts.1, parts.2) := by
    rw [cut, if_neg hstart]
  have happend : cut (lit "://") (user ++ code '@' :: host ++ code ':' :: rest) = _ :=
    cut_append hfront (lit "//") (code ':' :: rest)
  have hscheme : code ':' :: lit "//" = lit "://" := rfl
  rw [← List.cons_append, ← List.append_assoc, happend, hscheme, hcolon, Option.map_map]
  simp only [Function.comp_def, List.append_assoc, List.cons_append]

/-- The scp form of a user that is not blank, where `://` does not occur. -/
private theorem scpRemote_eq {user host path : Str} (huser : user ≠ [])
    (huserChars : ∀ c ∈ user, c ≠ code '/' ∧ c ≠ code ':' ∧ c ≠ code '@') (hhost : host ≠ [])
    (hhostChars : ∀ c ∈ host, c ≠ code '/' ∧ c ≠ code ':') (hpath : path ≠ []) (hnewline : code '\n' ∉ path) :
    scpRemote (user ++ code '@' :: (host ++ code ':' :: path)) = some (host, path) := by
  have huserAll : ∀ c ∈ user, isScpUser c = true := by
    intro c hc
    obtain ⟨hslash, hcolon, hat⟩ := huserChars c hc
    exact decide_eq_true ⟨hslash, hat, hcolon⟩
  have hhostAll : ∀ c ∈ host, isScpHost c = true := by
    intro c hc
    exact decide_eq_true (hhostChars c hc).symm
  have hat : ¬ isScpUser (code '@') = true := by decide
  have hcolon : ¬ isScpHost (code ':') = true := by decide
  rw [scpRemote, List.dropWhile_append_of_pos huserAll, List.takeWhile_append_of_pos huserAll,
    List.dropWhile_cons_of_neg hat, List.takeWhile_cons_of_neg hat, List.append_nil]
  dsimp only
  rw [if_pos ⟨rfl, huser⟩, List.dropWhile_append_of_pos hhostAll, List.takeWhile_append_of_pos hhostAll,
    List.dropWhile_cons_of_neg hcolon, List.takeWhile_cons_of_neg hcolon, List.append_nil]
  exact if_pos ⟨rfl, hhost, hpath, hnewline⟩

private theorem strip_user {user rest : Str} {c z : CodePoint} (hc : Py.isspace c = false)
    (hz : (c :: rest).getLast? = some z) (hspace : Py.isspace z = false) :
    Py.strip (user ++ c :: rest) = user.dropWhile Py.isspace ++ c :: rest := by
  have hdrop : (user ++ c :: rest).dropWhile Py.isspace = user.dropWhile Py.isspace ++ c :: rest := by
    induction user with
    | nil => rw [List.nil_append, List.dropWhile_cons_of_neg (by simp [hc])]; rfl
    | cons d user ih =>
      rw [List.cons_append, List.dropWhile_cons, List.dropWhile_cons]
      split
      · exact ih
      · rfl
  rw [Py.strip, hdrop, List.rdropWhile_eq_self_iff]
  intro hne hlast
  have heq := List.getLast?_eq_some_getLast hne
  rw [List.getLast?_append, hz] at heq
  rw [← Option.some.inj heq, hspace] at hlast
  cases hlast

/-! ### Host and path in lower case -/

private theorem asciiLower_ne_sign {c d : CodePoint} (hd : d = code '@' ∨ d = code '/' ∨ d = code ':') (h : c ≠ d) :
    asciiLower c ≠ d :=
  fun heq => h (asciiLower_sign hd heq)

private theorem infix_scheme_map {s : Str} : lit "://" <:+: s.map asciiLower ↔ lit "://" <:+: s := by
  constructor
  · rintro ⟨a, b, hab⟩
    obtain ⟨front, rest, rfl, hfront, -⟩ := List.map_eq_append_iff.1 hab.symm
    obtain ⟨a', mid, rfl, -, hmid⟩ := List.map_eq_append_iff.1 hfront
    obtain ⟨c, m, rfl, hc, hm⟩ := List.map_eq_cons_iff.1 (hmid : _ = code ':' :: lit "//")
    obtain ⟨d, m', rfl, hd, hm'⟩ := List.map_eq_cons_iff.1 (hm : _ = code '/' :: lit "/")
    obtain ⟨e, m'', rfl, he, hm''⟩ := List.map_eq_cons_iff.1 (hm' : _ = code '/' :: [])
    obtain rfl := List.map_eq_nil_iff.1 hm''
    obtain rfl := asciiLower_sign (Or.inr (Or.inr rfl)) hc
    obtain rfl := asciiLower_sign (Or.inr (Or.inl rfl)) hd
    obtain rfl := asciiLower_sign (Or.inr (Or.inl rfl)) he
    exact ⟨a', rest, rfl⟩
  · intro h
    exact (List.IsInfix.map asciiLower h : (lit "://").map asciiLower <:+: _)

/-- The host and the path in lower case are as they were. -/
private structure Lowered (host path : Str) : Prop where
  host_ne : host ≠ []
  host_ascii : ∀ c ∈ host, c.val < 0x80 ∧ asciiLower c = c ∧ Py.isspace c = false
  host_chars : ∀ c ∈ host, c ≠ code '/' ∧ c ≠ code ':' ∧ c ≠ code '@'
  path_ne : path ≠ []
  path_ascii : ∀ c ∈ path, c.val < 0x80 ∧ asciiLower c = c ∧ Py.isspace c = false
  path_head : path.head? ≠ some (code '/')
  path_last : path.getLast? ≠ some (code '/')

private theorem Remote.Legal.lowered (h : r.Legal) : Lowered r.repository.1 r.repository.2 where
  host_ne := fun hnil => h.host_ne (List.map_eq_nil_iff.1 hnil)
  host_ascii := by
    intro c hc
    obtain ⟨d, hd, rfl⟩ := List.mem_map.1 hc
    obtain ⟨hascii, hlower, hspace⟩ := asciiLower_spec (h.host_ascii d hd)
    exact ⟨hascii, hlower, hspace.trans (h.host_chars d hd).2.2.2⟩
  host_chars := by
    intro c hc
    obtain ⟨d, hd, rfl⟩ := List.mem_map.1 hc
    obtain ⟨hslash, hcolon, hat, -⟩ := h.host_chars d hd
    exact ⟨asciiLower_ne_sign (Or.inr (Or.inl rfl)) hslash, asciiLower_ne_sign (Or.inr (Or.inr rfl)) hcolon,
      asciiLower_ne_sign (Or.inl rfl) hat⟩
  path_ne := fun hnil => h.path_ne (List.map_eq_nil_iff.1 hnil)
  path_ascii := by
    intro c hc
    obtain ⟨d, hd, rfl⟩ := List.mem_map.1 hc
    obtain ⟨hascii, hlower, hspace⟩ := asciiLower_spec (h.path_ascii d hd)
    exact ⟨hascii, hlower, hspace.trans (h.path_space d hd)⟩
  path_head := by
    rw [Remote.repository, List.head?_map]
    intro hsome
    obtain ⟨c, hc, heq⟩ := Option.map_eq_some_iff.1 hsome
    exact h.path_head (asciiLower_sign (Or.inr (Or.inl rfl)) heq ▸ hc)
  path_last := by
    rw [Remote.repository, List.getLast?_map]
    intro hsome
    obtain ⟨c, hc, heq⟩ := Option.map_eq_some_iff.1 hsome
    exact h.path_last (asciiLower_sign (Or.inr (Or.inl rfl)) heq ▸ hc)

/-! ### The forms of one remote -/

private def plainEnding (c : CodePoint) : Bool :=
  c.val < 0x80 ∧ asciiLower c = c ∧ Py.isspace c = false ∧ c ≠ code '@' ∧ c ≠ code ':'

private theorem ending_spec {ending : Str} (h : ending ∈ endings) :
    ∀ c ∈ ending, c.val < 0x80 ∧ asciiLower c = c ∧ Py.isspace c = false ∧ c ≠ code '@' ∧ c ≠ code ':' := by
  have hall : ending.all plainEnding = true := by
    simp only [endings, List.mem_cons, List.not_mem_nil, or_false] at h
    rcases h with rfl | rfl | rfl | rfl
    · decide
    · decide
    · decide
    · decide
  exact fun c hc => of_decide_eq_true (List.all_eq_true.1 hall c hc)

private theorem suffix_of_notMem {α : Type} {c : α} {tail host path : List α} (hc : c ∉ tail)
    (h : tail <:+ host ++ c :: path) : tail <:+ path := by
  rcases List.suffix_or_suffix_of_suffix h (List.suffix_append host (c :: path)) with hpath | hpath
  · rcases List.suffix_cons_iff.1 hpath with rfl | hpath
    · exact absurd List.mem_cons_self hc
    · exact hpath
  · exact absurd (hpath.subset List.mem_cons_self) hc

/-- The last steps leave the fingerprint of a form. -/
private theorem withoutSuffix_ending {host path : Str} (h : Lowered host path) (hgit : ¬ lit ".git" <:+ path)
    {ending : Str} (hending : ending ∈ endings) :
    withoutSuffix (host ++ code '/' :: path ++ ending) = host ++ code '/' :: path := by
  have hlast : (host ++ code '/' :: path).getLast? ≠ some (code '/') := by
    obtain ⟨c, cs, rfl⟩ := List.exists_cons_of_ne_nil h.path_ne
    rw [List.getLast?_append, List.getLast?_cons_cons, List.getLast?_cons]
    simpa [List.getLast?_cons] using h.path_last
  have hgitKey : ¬ lit ".git" <:+ host ++ code '/' :: path := fun hsuffix =>
    hgit (suffix_of_notMem (by decide) hsuffix)
  obtain ⟨hself, hslash⟩ := withoutSuffix_plain hlast hgitKey
  obtain ⟨hdot, hdotSlash⟩ := withoutSuffix_git (host ++ code '/' :: path)
  simp only [endings, List.mem_cons, List.not_mem_nil, or_false] at hending
  rcases hending with rfl | rfl | rfl | rfl
  · rw [List.append_nil]
    exact hself
  · exact hslash
  · exact hdot
  · exact hdotSlash

private theorem last_ending {text ending : Str} (hne : text ≠ []) (htext : ∀ c ∈ text, Py.isspace c = false)
    (hending : ending ∈ endings) : ∃ z, (text ++ ending).getLast? = some z ∧ Py.isspace z = false := by
  have hlast := List.getLast?_eq_some_getLast (List.append_ne_nil_of_left_ne_nil hne ending)
  refine ⟨_, hlast, ?_⟩
  rcases List.mem_append.1 (List.mem_of_getLast? hlast) with hmem | hmem
  · exact htext _ hmem
  · exact (ending_spec hending _ hmem).2.2.1

variable (table) in
private theorem Remote.Legal.lower_location (h : r.Legal) {sep : CodePoint}
    (hsep : sep.val < 0x80 ∧ asciiLower sep = sep ∧ Py.isspace sep = false) {ending : Str}
    (hending : ending ∈ endings) :
    lower table (r.host ++ sep :: r.path ++ ending) = r.repository.1 ++ sep :: r.repository.2 ++ ending ∧
    ∃ z, (r.host ++ sep :: r.path ++ ending).getLast? = some z ∧ Py.isspace z = false := by
  constructor
  · have hascii : ∀ c ∈ r.host ++ sep :: r.path ++ ending, c.val < 0x80 := by
      intro c hc
      simp only [List.mem_append, List.mem_cons] at hc
      rcases hc with (hc | rfl | hc) | hc
      · exact h.host_ascii c hc
      · exact hsep.1
      · exact h.path_ascii c hc
      · exact (ending_spec hending c hc).1
    rw [lower_ascii hascii, List.map_append, List.map_append, List.map_cons, hsep.2.1,
      List.map_congr_left fun c hc => (ending_spec hending c hc).2.1, List.map_id']
    rfl
  · refine last_ending (by simp) ?_ hending
    intro c hc
    simp only [List.mem_append, List.mem_cons] at hc
    rcases hc with hc | rfl | hc
    · exact (h.host_chars c hc).2.2.2
    · exact hsep.2.2
    · exact h.path_space c hc

private theorem slash_spec : (code '/').val < 0x80 ∧ asciiLower (code '/') = code '/' ∧
    Py.isspace (code '/') = false := by
  decide

private theorem colon_spec : (code ':').val < 0x80 ∧ asciiLower (code ':') = code ':' ∧
    Py.isspace (code ':') = false := by
  decide

private theorem canonical_plain (h : r.Legal) {scheme : Str} (hscheme : scheme ∈ schemes) {ending : Str}
    (hending : ending ∈ endings) : canonicalRemoteUrl table (scheme ++ (r.host ++ code '/' :: r.path) ++ ending) =
      withoutSuffix (behindFirst (lit "@") (r.key ++ ending)) := by
  obtain ⟨hlower, z, hz, hspace⟩ := h.lower_location table slash_spec hending
  rw [List.append_assoc scheme, canonical_url hscheme hz hspace, hlower]
  rfl

private theorem canonical_userInfo (h : r.Legal) {scheme : Str} (hscheme : scheme ∈ schemes) {ending : Str}
    (hending : ending ∈ endings) :
    canonicalRemoteUrl table (scheme ++ (r.userInfo ++ code '@' :: (r.host ++ code '/' :: r.path)) ++ ending) =
      withoutSuffix (behindFirst (lit "@") (lower table r.userInfo ++ code '@' :: (r.key ++ ending))) := by
  obtain ⟨hlower, z, hz, hspace⟩ := h.lower_location table slash_spec hending
  have hlast : (r.userInfo ++ code '@' :: (r.host ++ code '/' :: r.path ++ ending)).getLast? = some z := by
    rw [List.getLast?_append, List.getLast?_cons, hz]
    rfl
  rw [List.append_assoc scheme, List.append_assoc r.userInfo, List.cons_append, canonical_url hscheme hlast hspace,
    lower_cut (Or.inl rfl), hlower]
  rfl

/-- No ending makes a `://`. -/
private theorem infix_scheme_ending {path ending : Str} (hlast : path.getLast? ≠ some (code '/'))
    (hending : ending ∈ endings) : lit "://" <:+: path ++ ending ↔ lit "://" <:+: path := by
  refine ⟨?_, fun h => h.trans (List.prefix_append path ending).isInfix⟩
  rintro ⟨a, b, hab⟩
  rcases List.append_eq_append_iff.1 hab with ⟨c, hpath, -⟩ | ⟨c, hfront, hend⟩
  · exact ⟨a, c, hpath.symm⟩
  · have hfree : code ':' ∉ c := fun hmem =>
      (ending_spec hending _ (hend ▸ List.mem_append_left b hmem)).2.2.2.2 rfl
    have hslashes : c <:+ [code '/', code '/'] := suffix_of_notMem hfree (hfront ▸ List.suffix_append path c)
    rcases List.suffix_cons_iff.1 hslashes with rfl | hslash
    · simp only [endings, List.mem_cons, List.not_mem_nil, or_false] at hending
      rcases hending with rfl | rfl | rfl | rfl
      · cases hend
      · cases hend
      · cases hend
      · cases hend
    · rcases List.suffix_cons_iff.1 hslash with rfl | hnil
      · have happend : (a ++ lit ":/") ++ [code '/'] = path ++ [code '/'] := by
          rw [List.append_assoc]
          exact hfront
        have hpath := List.append_cancel_right happend
        refine absurd ?_ hlast
        rw [← hpath, List.getLast?_append]
        rfl
      · obtain rfl := List.suffix_nil.1 hnil
        exact ⟨a, [], by rw [List.append_nil] at hfront ⊢; exact hfront⟩

/-- What remains of the scp form after stripping and lowering. -/
private theorem canonical_scp (h : r.Legal) {ending : Str} (hending : ending ∈ endings) :
    canonicalRemoteUrl table (r.scpUser ++ code '@' :: (r.host ++ code ':' :: r.path) ++ ending) =
      withoutSuffix (location (lower table (r.scpUser.dropWhile Py.isspace) ++
        code '@' :: (r.repository.1 ++ code ':' :: (r.repository.2 ++ ending)))) := by
  obtain ⟨hlower, z, hz, hspace⟩ := h.lower_location table colon_spec hending
  have hlast : (code '@' :: (r.host ++ code ':' :: r.path ++ ending)).getLast? = some z := by
    rw [List.getLast?_cons, hz]
    rfl
  have hs : lower table (Py.strip (r.scpUser ++ code '@' :: (r.host ++ code ':' :: r.path) ++ ending)) =
      lower table (r.scpUser.dropWhile Py.isspace) ++
        code '@' :: (r.repository.1 ++ code ':' :: (r.repository.2 ++ ending)) := by
    rw [List.append_assoc, List.cons_append, strip_user (by decide) hlast hspace, lower_cut (Or.inl rfl), hlower,
      List.append_assoc, List.cons_append]
  rw [canonicalRemoteUrl, hs]
  exact if_neg (by simp)

/-- `://` occurs in the scp form just in case it occurs in the path. -/
private theorem infix_scheme_scp {user host path ending : Str} (h : Lowered host path) (huser : code ':' ∉ user)
    (hending : ending ∈ endings) :
    lit "://" <:+: user ++ code '@' :: (host ++ code ':' :: (path ++ ending)) ↔ lit "://" <:+: path := by
  have hhead : (path ++ ending).head? ≠ some (code '/') := by
    rw [List.head?_append_of_ne_nil _ h.path_ne]
    exact h.path_head
  rw [← infix_scheme_ending h.path_last hending, ← not_iff_not, ← cut_eq_none_iff, ← cut_eq_none_iff,
    cut_scheme_scp huser (fun hmem => (h.host_chars _ hmem).2.1 rfl) hhead, Option.map_eq_none_iff]

variable (table) in
private theorem user_chars (h : r.Legal) :
    ∀ c ∈ lower table (r.scpUser.dropWhile Py.isspace), c ≠ code '/' ∧ c ≠ code ':' ∧ c ≠ code '@' := by
  have hmem : ∀ c, (c = code '@' ∨ c = code '/' ∨ c = code ':') →
      c ∈ lower table (r.scpUser.dropWhile Py.isspace) → c ∈ r.scpUser := fun c hc hlower =>
    (List.dropWhile_suffix _).subset (mem_of_mem_lower hc hlower)
  intro c hc
  refine ⟨?_, ?_, ?_⟩
  · rintro rfl
    exact (h.scpUser_chars _ (hmem _ (Or.inr (Or.inl rfl)) hc)).1 rfl
  · rintro rfl
    exact (h.scpUser_chars _ (hmem _ (Or.inr (Or.inr rfl)) hc)).2.1 rfl
  · rintro rfl
    exact (h.scpUser_chars _ (hmem _ (Or.inl rfl) hc)).2.2 rfl

private theorem user_ne_nil : lower table (r.scpUser.dropWhile Py.isspace) ≠ [] ↔
    ¬ ∀ c ∈ r.scpUser, Py.isspace c = true := by
  rw [Ne, not_iff_not]
  constructor
  · intro hnil
    exact List.dropWhile_eq_nil_iff.1 (lower_eq_nil hnil)
  · intro hall
    rw [List.dropWhile_eq_nil_iff.2 hall]
    rfl

/-- The scp form that the pattern is made for. -/
private theorem location_scp {user host path ending : Str} (h : Lowered host path) (huser : user ≠ [])
    (huserChars : ∀ c ∈ user, c ≠ code '/' ∧ c ≠ code ':' ∧ c ≠ code '@') (hscheme : ¬ lit "://" <:+: path)
    (hending : ending ∈ endings) :
    location (user ++ code '@' :: (host ++ code ':' :: (path ++ ending))) = host ++ code '/' :: path ++ ending := by
  have hnewline : code '\n' ∉ path ++ ending := by
    intro hmem
    have hspace : Py.isspace (code '\n') = true := by decide
    rcases List.mem_append.1 hmem with hmem | hmem
    · exact Bool.noConfusion (hspace.symm.trans (h.path_ascii _ hmem).2.2)
    · exact Bool.noConfusion (hspace.symm.trans (ending_spec hending _ hmem).2.2.1)
  have hinfix : ¬ lit "://" <:+: user ++ code '@' :: (host ++ code ':' :: (path ++ ending)) := fun hmem =>
    hscheme ((infix_scheme_scp h (fun hc => (huserChars _ hc).2.1 rfl) hending).1 hmem)
  rw [location, scpRemote_eq huser huserChars h.host_ne (fun c hc => ⟨(h.host_chars c hc).1, (h.host_chars c hc).2.1⟩)
    (List.append_ne_nil_of_left_ne_nil h.path_ne ending) hnewline]
  dsimp only
  rw [if_neg hinfix, List.append_assoc, List.cons_append]

/-- The scp form of a path with `://` in it is read as a URL. -/
private theorem location_scp_scheme {user host path : Str} (h : Lowered host path)
    (huserChars : ∀ c ∈ user, c ≠ code '/' ∧ c ≠ code ':' ∧ c ≠ code '@') (hscheme : lit "://" <:+: path) :
    (location (user ++ code '@' :: (host ++ code ':' :: (path ++ [])))).length < path.length := by
  have huser : code ':' ∉ user := fun hc => (huserChars _ hc).2.1 rfl
  have hnil : ([] : Str) ∈ endings := List.mem_cons_self
  obtain ⟨parts, hcut⟩ := Option.ne_none_iff_exists'.1 fun hnone => cut_eq_none_iff.1 hnone hscheme
  have hbehind : behindFirst (lit "://") (user ++ code '@' :: (host ++ code ':' :: path)) = parts.2 := by
    rw [behindFirst, cut_scheme_scp huser (fun hmem => (h.host_chars _ hmem).2.1 rfl) h.path_head, hcut]
    rfl
  have hpath := congrArg List.length (eq_append_of_cut hcut)
  have hlength := length_behindFirst_le (lit "@") parts.2
  have hsign : (lit "://").length = 3 := rfl
  rw [List.length_append, List.length_append] at hpath
  rw [location_url ((infix_scheme_scp h huser hnil).2 hscheme), List.append_nil, hbehind]
  omega

/-- The scp form of nobody keeps its colon. -/
private theorem location_scp_blank {host path ending : Str} (h : Lowered host path) (hscheme : ¬ lit "://" <:+: path)
    (hending : ending ∈ endings) :
    location ([] ++ code '@' :: (host ++ code ':' :: (path ++ ending))) = host ++ code ':' :: path ++ ending := by
  have hnone : scpRemote ([] ++ code '@' :: (host ++ code ':' :: (path ++ ending))) = none := rfl
  have hscheme : cut (lit "://") ([] ++ code '@' :: (host ++ code ':' :: (path ++ ending))) = none :=
    cut_eq_none_iff.2 fun hmem => hscheme ((infix_scheme_scp h List.not_mem_nil hending).1 hmem)
  have hbehind : behindFirst (lit "://") ([] ++ code '@' :: (host ++ code ':' :: (path ++ ending))) =
      [] ++ code '@' :: (host ++ code ':' :: (path ++ ending)) := by
    rw [behindFirst, hscheme]
    rfl
  rw [location, hnone]
  dsimp only
  rw [hbehind, behindFirst_at List.not_mem_nil, List.append_assoc, List.cons_append]

/-! ### The fingerprint -/

private theorem mem_forms {form : Str} : form ∈ r.forms ↔ ∃ ending ∈ endings,
    (∃ scheme ∈ schemes, form = scheme ++ (r.host ++ code '/' :: r.path) ++ ending) ∨
    (∃ scheme ∈ schemes, form = scheme ++ (r.userInfo ++ code '@' :: (r.host ++ code '/' :: r.path)) ++ ending) ∨
    form = r.scpUser ++ code '@' :: (r.host ++ code ':' :: r.path) ++ ending := by
  simp only [Remote.forms, Remote.plainForms, List.mem_flatMap, List.mem_map, List.mem_append, List.mem_singleton]
  constructor
  · rintro ⟨plain, (⟨scheme, hscheme, rfl⟩ | ⟨scheme, hscheme, rfl⟩) | rfl, ending, hending, rfl⟩
    · exact ⟨ending, hending, Or.inl ⟨scheme, hscheme, rfl⟩⟩
    · exact ⟨ending, hending, Or.inr (Or.inl ⟨scheme, hscheme, rfl⟩)⟩
    · exact ⟨ending, hending, Or.inr (Or.inr rfl)⟩
  · rintro ⟨ending, hending, ⟨scheme, hscheme, rfl⟩ | ⟨scheme, hscheme, rfl⟩ | rfl⟩
    · exact ⟨_, Or.inl (Or.inl ⟨scheme, hscheme, rfl⟩), ending, hending, rfl⟩
    · exact ⟨_, Or.inl (Or.inr ⟨scheme, hscheme, rfl⟩), ending, hending, rfl⟩
    · exact ⟨_, Or.inr rfl, ending, hending, rfl⟩

private theorem notMem_map {s : Str} {c : CodePoint} (hc : c = code '@' ∨ c = code '/' ∨ c = code ':') (h : c ∉ s) :
    c ∉ s.map asciiLower := by
  intro hmem
  obtain ⟨d, hd, heq⟩ := List.mem_map.1 hmem
  exact h (asciiLower_sign hc heq ▸ hd)

/-- Every form of a clean remote has the fingerprint `host/path`. -/
private theorem same_of_clean (h : r.Legal) (hclean : r.Clean) {form : Str} (hform : form ∈ r.forms) :
    canonicalRemoteUrl table form = r.key := by
  have hlowered := h.lowered
  have hat : ∀ ending ∈ endings, code '@' ∉ r.key ++ ending := by
    intro ending hending
    simp only [Remote.key, List.mem_append, List.mem_cons, not_or]
    exact ⟨⟨fun hmem => (hlowered.host_chars _ hmem).2.2 rfl, by decide, notMem_map (Or.inl rfl) hclean.path_at⟩,
      fun hmem => (ending_spec hending _ hmem).2.2.2.1 rfl⟩
  obtain ⟨ending, hending, ⟨scheme, hscheme, rfl⟩ | ⟨scheme, hscheme, rfl⟩ | rfl⟩ := mem_forms.1 hform
  · rw [canonical_plain h hscheme hending, behindFirst_of_notMem (hat ending hending)]
    exact withoutSuffix_ending hlowered hclean.path_git hending
  · have hinfo : code '@' ∉ lower table r.userInfo := fun hmem =>
      hclean.userInfo_at (mem_of_mem_lower (Or.inl rfl) hmem)
    rw [canonical_userInfo h hscheme hending, behindFirst_at hinfo]
    exact withoutSuffix_ending hlowered hclean.path_git hending
  · rw [canonical_scp h hending, location_scp hlowered (user_ne_nil.2 hclean.scpUser_blank) (user_chars table h)
      (fun hmem => hclean.path_scheme (infix_scheme_map.1 hmem)) hending]
    exact withoutSuffix_ending hlowered hclean.path_git hending

/-- The fingerprint of a clean remote is its own. -/
private theorem fixed_of_clean (h : r.Legal) (hclean : r.Clean) : canonicalRemoteUrl table r.key = r.key := by
  have hlowered := h.lowered
  have hchars : ∀ c ∈ r.key, c.val < 0x80 ∧ asciiLower c = c ∧ Py.isspace c = false := by
    intro c hc
    simp only [Remote.key, List.mem_append, List.mem_cons] at hc
    rcases hc with hc | rfl | hc
    · exact hlowered.host_ascii c hc
    · exact slash_spec
    · exact hlowered.path_ascii c hc
  have hne : r.key ≠ [] := by simp [Remote.key]
  have hstrip : Py.strip r.key = r.key :=
    strip_of_ends (fun c hc => (hchars c (List.mem_of_head? hc)).2.2)
      fun c hc => (hchars c (List.mem_of_getLast? hc)).2.2
  have hlower : lower table r.key = r.key := by
    rw [lower_ascii fun c hc => (hchars c hc).1, List.map_congr_left fun c hc => (hchars c hc).2.1, List.map_id']
  have hscheme : behindFirst (lit "://") r.key = r.key := by
    have hfront : code ':' ∉ r.repository.1 ++ [code '/'] := by
      simp only [List.mem_append, List.mem_singleton, not_or]
      exact ⟨fun hmem => (hlowered.host_chars _ hmem).2.1 rfl, by decide⟩
    have hpath : cut (lit "://") r.repository.2 = none :=
      cut_eq_none_iff.2 fun hmem => hclean.path_scheme (infix_scheme_map.1 hmem)
    have hcut : cut (lit "://") (r.repository.1 ++ [code '/'] ++ r.repository.2) =
        (cut (lit "://") r.repository.2).map _ := cut_append hfront (lit "//") r.repository.2
    rw [hpath, Option.map_none, List.append_assoc, List.singleton_append] at hcut
    rw [behindFirst, Remote.key, hcut]
    rfl
  have hat : code '@' ∉ r.key := by
    simp only [Remote.key, List.mem_append, List.mem_cons, not_or]
    exact ⟨fun hmem => (hlowered.host_chars _ hmem).2.2 rfl, by decide, notMem_map (Or.inl rfl) hclean.path_at⟩
  have hscp : scpRemote r.key = none := by
    have huser : ∀ c ∈ r.repository.1, isScpUser c = true := by
      intro c hc
      obtain ⟨hslash, hcolon, hat⟩ := hlowered.host_chars c hc
      exact decide_eq_true ⟨hslash, hat, hcolon⟩
    rw [scpRemote, Remote.key, List.dropWhile_append_of_pos huser, List.dropWhile_cons_of_neg (by decide)]
    exact if_neg fun h => absurd h.1 (by decide)
  have hlocation : location r.key = r.key := by
    rw [location, hscp]
    dsimp only
    rw [hscheme, behindFirst_of_notMem hat]
  have hlast := withoutSuffix_ending hlowered hclean.path_git (List.mem_cons_self : ([] : Str) ∈ endings)
  rw [List.append_nil] at hlast
  rw [canonicalRemoteUrl, hstrip, hlower, if_neg hne, hlocation]
  exact hlast

private theorem infix_of_notMem {α : Type} {c : α} {part a b : List α} (hc : c ∉ part) (h : part <:+: a ++ c :: b) :
    part <:+: a ∨ part <:+: b := by
  obtain ⟨x, y, hxy⟩ := h
  rcases List.append_eq_append_iff.1 hxy with ⟨z, ha, -⟩ | ⟨z, hfront, hrest⟩
  · exact Or.inl ⟨x, z, ha.symm⟩
  · cases z with
    | nil => exact Or.inl ⟨x, [], by rw [List.append_nil] at hfront ⊢; exact hfront⟩
    | cons d z =>
      obtain ⟨rfl, rfl⟩ := List.cons.inj hrest
      have hsuffix : part <:+ z := suffix_of_notMem hc (hfront ▸ List.suffix_append x part)
      exact Or.inr (hsuffix.isInfix.trans (List.prefix_append z y).isInfix)

private theorem fingerprint_of_clean (h : r.Legal) (hclean : r.Clean) : Fingerprint table r r.key where
  same _ hform := same_of_clean h hclean hform
  hidden := by
    intro part hpart huser
    refine infix_of_notMem (fun hslash => ?_) hpart
    rcases huser with huser | huser
    · exact h.userInfo_chars (mem_of_mem_lower (Or.inr (Or.inl rfl)) (huser.subset hslash))
    · exact (h.scpUser_chars _ (mem_of_mem_lower (Or.inr (Or.inl rfl)) (huser.subset hslash))).1 rfl
  fixed := fixed_of_clean h hclean

private theorem key_inj {r r' : Remote} (h : r.Legal) (h' : r'.Legal) : r.key = r'.key ↔
    r.repository = r'.repository := by
  constructor
  · intro heq
    have hhost : code '/' ∉ r.repository.1 := fun hmem => (h.lowered.host_chars _ hmem).1 rfl
    have hhost' : code '/' ∉ r'.repository.1 := fun hmem => (h'.lowered.host_chars _ hmem).1 rfl
    have hcut : cut [code '/'] r.key = some r.repository := cut_of_notMem hhost [] _
    have hcut' : cut [code '/'] r'.key = some r'.repository := cut_of_notMem hhost' [] _
    exact Option.some.inj (hcut.symm.trans (heq ▸ hcut'))
  · intro heq
    rw [Remote.key, Remote.key, heq]

private theorem behindFirst_userInfo (user rest : Str) :
    code '@' ∉ user ∧ behindFirst (lit "@") (user ++ code '@' :: rest) = rest ∨
      code '@' ∈ user ∧ ∃ front, behindFirst (lit "@") (user ++ code '@' :: rest) = front ++ code '@' :: rest := by
  by_cases hat : code '@' ∈ user
  · obtain ⟨a, b, rfl, ha⟩ := List.eq_append_cons_of_mem hat
    refine Or.inr ⟨hat, b, ?_⟩
    rw [List.append_assoc, List.cons_append, behindFirst_at ha]
  · exact Or.inl ⟨hat, behindFirst_at hat rest⟩

/-- A remote whose forms agree is clean.  Of a form with `.git` only that is dropped, so its length tells how much of
the rest was taken for user-info or for a scheme. -/
private theorem clean_of_same (h : r.Legal) {s : Str} (hsame : ∀ form ∈ r.forms, canonicalRemoteUrl table form = s) :
    r.Clean := by
  have hlowered := h.lowered
  have hscheme : lit "https://" ∈ schemes := List.mem_cons_self
  have hnil : ([] : Str) ∈ endings := List.mem_cons_self
  have hgit : lit ".git" ∈ endings := List.mem_cons_of_mem _ (List.mem_cons_of_mem _ List.mem_cons_self)
  have hplain : ∀ ending ∈ endings, withoutSuffix (behindFirst (lit "@") (r.key ++ ending)) = s := fun ending hending =>
    (canonical_plain h hscheme hending).symm.trans (hsame _ (mem_forms.2 ⟨ending, hending, Or.inl ⟨_, hscheme, rfl⟩⟩))
  have hinfo : ∀ ending ∈ endings, withoutSuffix (behindFirst (lit "@")
      (lower table r.userInfo ++ code '@' :: (r.key ++ ending))) = s := fun ending hending =>
    (canonical_userInfo h hscheme hending).symm.trans
      (hsame _ (mem_forms.2 ⟨ending, hending, Or.inr (Or.inl ⟨_, hscheme, rfl⟩)⟩))
  have hscp : ∀ ending ∈ endings, withoutSuffix (location (lower table (r.scpUser.dropWhile Py.isspace) ++
      code '@' :: (r.repository.1 ++ code ':' :: (r.repository.2 ++ ending)))) = s := fun ending hending =>
    (canonical_scp h hending).symm.trans (hsame _ (mem_forms.2 ⟨ending, hending, Or.inr (Or.inr rfl)⟩))
  have hkey : r.key.length = r.repository.1.length + (r.repository.2.length + 1) := List.length_append
  have hlong : r.key.length ≤ s.length := by
    rcases behindFirst_userInfo (lower table r.userInfo) (r.key ++ lit ".git") with ⟨-, hrest⟩ | ⟨-, front, hrest⟩
    · rw [← hinfo _ hgit, hrest, (withoutSuffix_git _).1]
    · rw [← hinfo _ hgit, hrest, ← List.cons_append, ← List.append_assoc, (withoutSuffix_git _).1, List.length_append,
        List.length_cons]
      omega
  have hpath : code '@' ∉ r.path := by
    intro hat
    have hmem : code '@' ∈ r.repository.2 := List.mem_map.2 ⟨_, hat, by decide⟩
    obtain ⟨a, b, hab, ha⟩ := List.eq_append_cons_of_mem hmem
    have hfront : code '@' ∉ r.repository.1 ++ code '/' :: a := by
      simp only [List.mem_append, List.mem_cons, not_or]
      exact ⟨fun hmem => (hlowered.host_chars _ hmem).2.2 rfl, by decide, ha⟩
    have hbehind : behindFirst (lit "@") (r.key ++ []) = b := by
      rw [List.append_nil, Remote.key, hab, ← List.cons_append, ← List.append_assoc, behindFirst_at hfront]
    have hshort := length_withoutSuffix b
    rw [← hbehind, hplain [] hnil, hbehind] at hshort
    rw [hab, List.length_append, List.length_cons] at hkey
    omega
  have hat : ∀ ending ∈ endings, code '@' ∉ r.key ++ ending := by
    intro ending hending
    simp only [Remote.key, List.mem_append, List.mem_cons, not_or]
    exact ⟨⟨fun hmem => (hlowered.host_chars _ hmem).2.2 rfl, by decide, notMem_map (Or.inl rfl) hpath⟩,
      fun hmem => (ending_spec hending _ hmem).2.2.2.1 rfl⟩
  have hs : s = r.key := by
    rw [← hplain _ hgit, behindFirst_of_notMem (hat _ hgit), (withoutSuffix_git _).1]
  have hinfix : ¬ lit "://" <:+: r.repository.2 := by
    intro hinfix
    have hshort := location_scp_scheme hlowered (user_chars table h) hinfix
    have hle := length_withoutSuffix (location (lower table (r.scpUser.dropWhile Py.isspace) ++
      code '@' :: (r.repository.1 ++ code ':' :: (r.repository.2 ++ []))))
    rw [hscp [] hnil] at hle
    omega
  refine ⟨hpath, fun hpathInfix => hinfix (infix_scheme_map.2 hpathInfix), ?_, ?_, ?_⟩
  · rintro ⟨stem, hstem⟩
    have hself : r.key = (r.repository.1 ++ code '/' :: stem) ++ lit ".git" := by
      rw [Remote.key, List.append_assoc, List.cons_append, hstem]
      rfl
    have hcut := hplain [] hnil
    rw [behindFirst_of_notMem (hat _ hnil), List.append_nil, hself, (withoutSuffix_git _).1] at hcut
    have hlength := congrArg List.length hself
    rw [List.length_append, hcut, hs] at hlength
    exact absurd hlength (by have : (lit ".git").length = 4 := rfl; omega)
  · intro hat'
    have hmem : code '@' ∈ lower table r.userInfo := by
      obtain ⟨a, b, hab, -⟩ := List.eq_append_cons_of_mem hat'
      rw [hab, lower_cut (Or.inl rfl)]
      exact List.mem_append_right _ List.mem_cons_self
    rcases behindFirst_userInfo (lower table r.userInfo) (r.key ++ lit ".git") with ⟨hnot, -⟩ | ⟨-, front, hrest⟩
    · exact hnot hmem
    · have hlength := congrArg List.length (hinfo _ hgit)
      rw [hrest, ← List.cons_append, ← List.append_assoc, (withoutSuffix_git _).1, hs, List.length_append,
        List.length_cons] at hlength
      omega
  · intro hblank
    have hnobody : lower table (r.scpUser.dropWhile Py.isspace) = [] := by_contra fun hne => user_ne_nil.1 hne hblank
    have hcolon := hscp _ hgit
    rw [hnobody, location_scp_blank hlowered hinfix hgit, (withoutSuffix_git _).1, hs, Remote.key,
      List.append_cancel_left_eq] at hcolon
    exact absurd (List.cons.inj hcolon).1 (by decide)

/-- The remotes of two repositories have the fingerprints that are promised, just in case the code may take for granted
what it does of both. -/
theorem canonical_remote_iff {r r' : Remote} (h : r.Legal) (h' : r'.Legal) :
    (∃ s s', Fingerprint table r s ∧ Fingerprint table r' s' ∧ (s = s' ↔ r.repository = r'.repository)) ↔
      r.Clean ∧ r'.Clean := by
  constructor
  · rintro ⟨s, s', hs, hs', -⟩
    exact ⟨clean_of_same h hs.same, clean_of_same h' hs'.same⟩
  · rintro ⟨hclean, hclean'⟩
    exact ⟨r.key, r'.key, fingerprint_of_clean h hclean, fingerprint_of_clean h' hclean', key_inj h h'⟩

/-! ### Two remotes -/

/-- Lowering of ASCII text. -/
private def asciiTable : CaseTable where
  mapping c := [asciiLower c]
  cased _ := false
  ignorable _ := false
  mapping_ascii _ _ := rfl
  mapping_other := by
    intro c hc
    have hself : asciiLower c = c := by
      refine if_neg fun hletter => ?_
      have hle : c.val ≤ 0x5A := hletter.2
      omega
    refine ⟨List.cons_ne_nil _ _, fun d hd hascii => ?_⟩
    rw [List.mem_singleton.1 hd, hself] at hascii
    omega
  sign _ _ := ⟨rfl, rfl⟩

/-- What `Legal` says of each character of the four parts. -/
private def legalChars (r : Remote) : Bool :=
  r.host.all (fun c => c.val < 0x80 ∧ c ≠ code '/' ∧ c ≠ code ':' ∧ c ≠ code '@' ∧ Py.isspace c = false) &&
    r.path.all (fun c => c.val < 0x80 ∧ Py.isspace c = false) && r.userInfo.all (fun c => c ≠ code '/') &&
    r.scpUser.all (fun c => c ≠ code '/' ∧ c ≠ code ':' ∧ c ≠ code '@')

private theorem legal_of_chars (h : legalChars r = true) (hhost : r.host ≠ []) (hpath : r.path ≠ [])
    (hhead : r.path.head? ≠ some (code '/')) (hlast : r.path.getLast? ≠ some (code '/'))
    (hgit : ¬ lit ".git" <:+ r.path) : r.Legal := by
  simp only [legalChars, Bool.and_eq_true, List.all_eq_true, decide_eq_true_eq] at h
  obtain ⟨⟨⟨hhostChars, hpathChars⟩, hinfo⟩, huser⟩ := h
  exact ⟨hhost, fun c hc => (hhostChars c hc).1, fun c hc => (hhostChars c hc).2, hpath,
    fun c hc => (hpathChars c hc).1,
    fun c hc => (hpathChars c hc).2, hhead, hlast, hgit, fun hmem => hinfo _ hmem rfl, huser⟩

private def widgets : Remote := ⟨lit "github.com", lit "Acme/Widgets", lit "user:token", lit "git"⟩

private def gadgets : Remote := ⟨lit "github.com", lit "acme/gadgets", [], lit "git"⟩

private theorem widgets_legal : widgets.Legal :=
  legal_of_chars (by decide) (by decide) (by decide) (by decide) (by decide) (by decide)

private theorem gadgets_legal : gadgets.Legal :=
  legal_of_chars (by decide) (by decide) (by decide) (by decide) (by decide) (by decide)

theorem canonical_remote_widgets : ∃ s s', Fingerprint asciiTable widgets s ∧ Fingerprint asciiTable gadgets s' ∧
    s ≠ s' := by
  have hclean : widgets.Clean := by
    refine ⟨by decide, by decide, by decide, by decide, fun h => ?_⟩
    exact absurd (h (code 'g') List.mem_cons_self) (by decide)
  have hclean' : gadgets.Clean := by
    refine ⟨by decide, by decide, by decide, by decide, fun h => ?_⟩
    exact absurd (h (code 'g') List.mem_cons_self) (by decide)
  obtain ⟨s, s', hs, hs', hsame⟩ := (canonical_remote_iff widgets_legal gadgets_legal).2 ⟨hclean, hclean'⟩
  exact ⟨s, s', hs, hs', fun h => absurd (hsame.1 h) (by decide)⟩

/-- A path with an `@` in it. -/
private def pinned : Remote := ⟨lit "example.org", lit "team/pkg@2", lit "user", lit "git"⟩

/-- The host and half of the path are taken for credentials, unless there are some. -/
theorem canonical_remote_pinned : pinned.Legal ∧ ¬ ∃ s s', Fingerprint asciiTable pinned s ∧
    Fingerprint asciiTable pinned s' ∧ (s = s' ↔ pinned.repository = pinned.repository) := by
  refine ⟨legal_of_chars (by decide) (by decide) (by decide) (by decide) (by decide) (by decide), ?_⟩
  rintro ⟨s, s', hs, -, -⟩
  have hplain : canonicalRemoteUrl asciiTable (lit "https://example.org/team/pkg@2") = lit "2" := by decide +kernel
  have huser : canonicalRemoteUrl asciiTable (lit "https://user@example.org/team/pkg@2") =
      lit "example.org/team/pkg@2" := by decide +kernel
  have hforms : lit "https://example.org/team/pkg@2" ∈ pinned.forms ∧
      lit "https://user@example.org/team/pkg@2" ∈ pinned.forms := by decide +kernel
  have hboth := (hs.same _ hforms.1).trans (hs.same _ hforms.2).symm
  rw [hplain, huser] at hboth
  exact absurd hboth (by decide)

end AgentOS
