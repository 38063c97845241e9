import AgentOS.Adapters.ChatGpt
import Mathlib.Data.List.Find

/-!
# The hashed text of a conversation

Messages are joined by two newlines, each behind its role and a colon.  A message may hold two newlines, a role and a
colon itself, and then it is hashed as the two messages would be that they seem to separate.

* `content_hash_injective_iff`: lists have the same hashed text just in case they are the same when every message is cut
  where it seems to hold the next one.
-/

namespace AgentOS.ChatGpt

open Py

/-- A message that the adapter keeps. -/
structure Kept (message : Str × Str) : Prop where
  role : message.1 ∈ keepRoles
  text : message.2 ≠ []
  stripped : Py.strip message.2 = message.2

/-- What is in front of the text of a message, other than the first. -/
def header (role : Str) : Str := lit "\n\n" ++ role ++ lit ": "

/-- The role of the header that a text begins with. -/
def leadingRole (text : Str) : Option Str := keepRoles.find? fun role => (header role).isPrefixOf text

/-- The messages that a message seems to be, in the middle of the message of `role` with `text`, with `skip` more code
points of a header. -/
def cutFrom : Nat → Str → Str → Str → List (Str × Str)
  | _, role, text, [] => [(role, text)]
  | skip + 1, role, text, _ :: cs => cutFrom skip role text cs
  | 0, role, text, c :: cs =>
    match leadingRole (c :: cs) with
    | some next => (role, text) :: cutFrom (next.length + 3) next [] cs
    | none => cutFrom 0 role (text ++ [c]) cs

/-- A message, cut at the headers in its text. -/
def cutMessage (message : Str × Str) : List (Str × Str) := cutFrom 0 message.1 [] message.2

/-- A message with its header. -/
private def rendered (message : Str × Str) : Str := header message.1 ++ message.2

/-! ### Headers -/

private theorem header_length (role : Str) : (header role).length = role.length + 4 := by
  rw [header, List.length_append, List.length_append]
  show 2 + role.length + 2 = role.length + 4
  omega

private theorem newline_notMem {role : Str} (h : role ∈ keepRoles) : code '\n' ∉ role ++ lit ": " := by
  have hall : keepRoles.all (fun role => code '\n' ∉ role ++ lit ": ") = true := by decide
  exact of_decide_eq_true (List.all_eq_true.1 hall role h)

/-- A newline that goes on with a header is its second. -/
private theorem header_split {role a b : Str} (hrole : role ∈ keepRoles) (h : header role = a ++ code '\n' :: b) :
    a = [] ∨ a = [code '\n'] := by
  have hheader : header role = code '\n' :: code '\n' :: (role ++ lit ": ") := rfl
  rw [hheader] at h
  cases a with
  | nil => exact Or.inl rfl
  | cons c a =>
    have htail := (List.cons.inj h).2
    cases a with
    | nil => exact Or.inr (congrArg (· :: []) (List.cons.inj h).1.symm)
    | cons d a =>
      have hrest : role ++ lit ": " = a ++ code '\n' :: b := (List.cons.inj htail).2
      exact absurd (hrest ▸ List.mem_append_right _ List.mem_cons_self) (newline_notMem hrole)

/-- A header begins in a text only if it is in it. -/
private theorem header_prefix_iff {role text tail : Str} (hrole : role ∈ keepRoles) (hne : text ≠ [])
    (hlast : ∀ c ∈ text.getLast?, Py.isspace c = false) (htail : tail = [] ∨ ∃ rest, tail = code '\n' :: rest) :
    header role <+: text ++ tail ↔ header role <+: text := by
  refine ⟨fun h => ?_, fun h => h.trans (List.prefix_append _ _)⟩
  obtain ⟨rest, hrest⟩ := h
  rcases List.append_eq_append_iff.1 hrest with ⟨more, htext, -⟩ | ⟨more, hheader, hmore⟩
  · exact ⟨more, htext.symm⟩
  · cases more with
    | nil => exact (List.append_nil text ▸ hheader) ▸ List.prefix_rfl
    | cons c more =>
      rcases htail with rfl | ⟨tail, rfl⟩
      · cases hmore
      · obtain rfl := (List.cons.inj hmore).1
        rcases header_split hrole hheader with rfl | rfl
        · exact absurd rfl hne
        · exact absurd (hlast _ rfl) (by decide)

private theorem leadingRole_append {text tail : Str} (hne : text ≠ [])
    (hlast : ∀ c ∈ text.getLast?, Py.isspace c = false) (htail : tail = [] ∨ ∃ rest, tail = code '\n' :: rest) :
    leadingRole (text ++ tail) = leadingRole text := by
  refine List.find?_congr fun role hrole => ?_
  rw [Bool.eq_iff_iff, List.isPrefixOf_iff_prefix, List.isPrefixOf_iff_prefix]
  exact header_prefix_iff hrole hne hlast htail

private theorem leadingRole_some {text role : Str} (h : leadingRole text = some role) :
    role ∈ keepRoles ∧ header role <+: text := by
  have hfound := List.find?_some h
  exact ⟨List.mem_of_find?_eq_some h, List.isPrefixOf_iff_prefix.1 hfound⟩

/-- No two roles begin alike. -/
private theorem role_append_inj {role role' x y : Str} (hrole : role ∈ keepRoles) (hrole' : role' ∈ keepRoles)
    (h : role ++ x = role' ++ y) : role = role' ∧ x = y := by
  have hall : keepRoles.all (fun role => role.head?.isSome ∧
      keepRoles.all fun role' => role.head? = role'.head? → role = role') = true := by decide
  obtain ⟨hsome, hinj⟩ := of_decide_eq_true (List.all_eq_true.1 hall role hrole)
  have hhead : role.head? = role'.head? := by
    have hne : role' ≠ [] := by
      rintro rfl
      revert hrole'
      decide
    have hhead := congrArg List.head? h
    obtain ⟨c, hc⟩ := Option.isSome_iff_exists.1 hsome
    rwa [List.head?_append, List.head?_append_of_ne_nil _ hne, hc, Option.some_or, ← hc] at hhead
  obtain rfl := of_decide_eq_true (List.all_eq_true.1 hinj role' hrole') hhead
  exact ⟨rfl, List.append_cancel_left h⟩

private theorem leadingRole_header {role : Str} (hrole : role ∈ keepRoles) (rest : Str) :
    leadingRole (header role ++ rest) = some role := by
  cases hlead : leadingRole (header role ++ rest) with
  | none =>
    have hnone := List.find?_eq_none.1 hlead role hrole
    exact absurd (List.isPrefixOf_iff_prefix.2 (List.prefix_append _ _)) hnone
  | some other =>
    obtain ⟨hother, behind, hbehind⟩ := leadingRole_some hlead
    have hroles : other ++ (lit ": " ++ behind) = role ++ (lit ": " ++ rest) := by
      simp only [header, List.append_assoc] at hbehind
      exact List.append_cancel_left hbehind
    exact congrArg some (role_append_inj hother hrole hroles).1

/-! ### Cuts -/

private theorem cutFrom_skip (skip : Nat) (role text rest : Str) :
    cutFrom skip role text rest = cutFrom 0 role text (rest.drop skip) := by
  induction skip generalizing rest with
  | zero => rfl
  | succ skip ih =>
    cases rest with
    | nil => rfl
    | cons c rest => exact ih rest

/-- A header ends a message and begins the next. -/
private theorem cutFrom_header {next : Str} (hnext : next ∈ keepRoles) (role text rest : Str) :
    cutFrom 0 role text (header next ++ rest) = (role, text) :: cutFrom 0 next [] rest := by
  have hlead := leadingRole_header hnext rest
  have hheader : header next ++ rest = code '\n' :: (code '\n' :: (next ++ lit ": ") ++ rest) := rfl
  have hdrop : (code '\n' :: (next ++ lit ": ") ++ rest).drop (next.length + 3) = rest := by
    have hlength : (code '\n' :: (next ++ lit ": ")).length = next.length + 3 := by
      rw [List.length_cons, List.length_append]
      rfl
    rw [← hlength, List.drop_left]
  rw [hheader] at hlead ⊢
  rw [cutFrom, hlead]
  dsimp only
  rw [cutFrom_skip, hdrop]

/-- A code point that begins no header is text. -/
private theorem cutFrom_text {c : CodePoint} {rest : Str} (h : leadingRole (c :: rest) = none) (role text : Str) :
    cutFrom 0 role text (c :: rest) = cutFrom 0 role (text ++ [c]) rest := by
  rw [cutFrom, h]

/-- What is cut can be put together again. -/
private theorem rendered_cutFrom (role text rest : Str) :
    (cutFrom 0 role text rest).flatMap rendered = header role ++ text ++ rest := by
  induction hn : rest.length using Nat.strongRecOn generalizing role text rest with
  | _ n ih =>
    cases rest with
    | nil =>
      rw [cutFrom, List.flatMap_singleton, List.append_nil]
      rfl
    | cons c rest =>
      cases hlead : leadingRole (c :: rest) with
      | some next =>
        obtain ⟨hnext, behind, hbehind⟩ := leadingRole_some hlead
        have hlength := congrArg List.length hbehind
        rw [List.length_append, header_length, hn] at hlength
        rw [← hbehind, cutFrom_header hnext, List.flatMap_cons, ih behind.length (by omega) _ _ _ rfl, List.append_nil]
        rfl
      | none =>
        rw [cutFrom_text hlead, ih rest.length (by rw [← hn]; exact Nat.lt_succ_self _) _ _ _ rfl]
        simp only [List.append_assoc, List.singleton_append]

private theorem rendered_cutMessages (messages : List (Str × Str)) :
    (messages.flatMap cutMessage).flatMap rendered = messages.flatMap rendered := by
  induction messages with
  | nil => rfl
  | cons message messages ih =>
    rw [List.flatMap_cons, List.flatMap_append, ih, List.flatMap_cons, cutMessage, rendered_cutFrom, List.append_nil]
    rfl

/-- What is behind a header is cut for itself. -/
private theorem cutFrom_append {next : Str} (hnext : next ∈ keepRoles) (role text behind : Str) {rest : Str}
    (hlast : ∀ c ∈ rest.getLast?, Py.isspace c = false) :
    cutFrom 0 role text (rest ++ (header next ++ behind)) = cutFrom 0 role text rest ++ cutFrom 0 next [] behind := by
  induction hn : rest.length using Nat.strongRecOn generalizing role text rest with
  | _ n ih =>
    cases rest with
    | nil => exact cutFrom_header hnext role text behind
    | cons c rest =>
      have hsame : leadingRole (c :: rest ++ (header next ++ behind)) = leadingRole (c :: rest) :=
        leadingRole_append (List.cons_ne_nil c rest) hlast (Or.inr ⟨_, rfl⟩)
      cases hlead : leadingRole (c :: rest) with
      | some other =>
        obtain ⟨hother, tail, htail⟩ := leadingRole_some hlead
        have hlength := congrArg List.length htail
        rw [List.length_append, header_length, hn] at hlength
        have hlast' : ∀ c ∈ tail.getLast?, Py.isspace c = false := by
          intro d hd
          refine hlast d ?_
          rw [← htail, List.getLast?_append, Option.mem_def.1 hd]
          rfl
        rw [← htail, List.append_assoc, cutFrom_header hother, cutFrom_header hother,
          ih tail.length (by omega) other [] hlast' rfl, List.cons_append]
      | none =>
        have hlast' : ∀ d ∈ rest.getLast?, Py.isspace d = false := by
          intro d hd
          refine hlast d ?_
          rw [← List.singleton_append, List.getLast?_append, Option.mem_def.1 hd]
          rfl
        rw [cutFrom_text hlead, ← ih rest.length (by rw [← hn]; exact Nat.lt_succ_self _) _ _ hlast' rfl]
        exact cutFrom_text (hsame.trans hlead) role text

/-- The messages behind another are cut for themselves. -/
private theorem cutFrom_messages {messages : List (Str × Str)} (h : ∀ message ∈ messages, Kept message)
    (role : Str) {text : Str} (hlast : ∀ c ∈ text.getLast?, Py.isspace c = false) :
    cutFrom 0 role [] (text ++ messages.flatMap rendered) = cutMessage (role, text) ++ messages.flatMap cutMessage := by
  induction messages generalizing role text with
  | nil =>
    rw [List.flatMap_nil, List.flatMap_nil, List.append_nil, List.append_nil]
    rfl
  | cons message messages ih =>
    have hmessage := h message List.mem_cons_self
    have hends := hmessage.stripped ▸ (strip_ends message.2).2
    rw [List.flatMap_cons, rendered, List.append_assoc, cutFrom_append hmessage.role role [] _ hlast,
      ih (fun m hm => h m (List.mem_cons_of_mem _ hm)) message.1 hends]
    rfl

/-! ### The hashed text -/

private theorem rendered_hashedText {messages : List (Str × Str)} (hne : messages ≠ []) :
    messages.flatMap rendered = lit "\n\n" ++ hashedText messages := by
  induction messages with
  | nil => exact absurd rfl hne
  | cons message messages ih =>
    cases messages with
    | nil =>
      rw [List.flatMap_singleton, hashedText, List.map_singleton, List.intercalate_singleton, rendered, header]
      simp only [List.append_assoc]
    | cons next messages =>
      have hcons : hashedText (message :: next :: messages) =
          message.1 ++ lit ": " ++ message.2 ++ (lit "\n\n" ++ hashedText (next :: messages)) := rfl
      rw [List.flatMap_cons, ih (List.cons_ne_nil _ _), hcons, rendered, header]
      simp only [List.append_assoc]

/-- Behind the first role, the hashed text is the first text and the other messages with their headers. -/
private theorem hashedText_cons (message : Str × Str) (messages : List (Str × Str)) :
    hashedText (message :: messages) = message.1 ++ (lit ": " ++ (message.2 ++ messages.flatMap rendered)) := by
  have hrendered : lit "\n\n" ++ hashedText (message :: messages) =
      lit "\n\n" ++ (message.1 ++ (lit ": " ++ (message.2 ++ messages.flatMap rendered))) := by
    rw [← rendered_hashedText (List.cons_ne_nil message messages), List.flatMap_cons, rendered, header]
    simp only [List.append_assoc]
  exact List.append_cancel_left hrendered

private theorem hashedText_ne_nil (message : Str × Str) (messages : List (Str × Str)) :
    hashedText (message :: messages) ≠ [] := by
  rw [hashedText_cons]
  exact List.append_ne_nil_of_right_ne_nil _ (List.cons_ne_nil _ _)

private theorem cut_eq_of_hashedText_eq {messages messages' : List (Str × Str)} (h : ∀ message ∈ messages, Kept message)
    (h' : ∀ message ∈ messages', Kept message) (heq : hashedText messages = hashedText messages') :
    messages.flatMap cutMessage = messages'.flatMap cutMessage := by
  cases messages with
  | nil =>
    cases messages' with
    | nil => rfl
    | cons message' messages' => exact absurd heq.symm (hashedText_ne_nil message' messages')
  | cons message messages =>
    cases messages' with
    | nil => exact absurd heq (hashedText_ne_nil message messages)
    | cons message' messages' =>
      obtain ⟨hfirst, hrest⟩ := List.forall_mem_cons.1 h
      obtain ⟨hfirst', hrest'⟩ := List.forall_mem_cons.1 h'
      rw [hashedText_cons, hashedText_cons] at heq
      obtain ⟨hrole, htail⟩ := role_append_inj hfirst.role hfirst'.role heq
      have htext := hfirst.stripped ▸ (strip_ends message.2).2
      have htext' := hfirst'.stripped ▸ (strip_ends message'.2).2
      calc (message :: messages).flatMap cutMessage
        _ = cutFrom 0 message.1 [] (message.2 ++ messages.flatMap rendered) := by
          rw [cutFrom_messages hrest message.1 htext]
          rfl
        _ = cutFrom 0 message'.1 [] (message'.2 ++ messages'.flatMap rendered) := by
          rw [hrole, List.append_cancel_left htail]
        _ = (message' :: messages').flatMap cutMessage := by
          rw [cutFrom_messages hrest' message'.1 htext']
          rfl

private theorem hashedText_eq_of_cut_eq {messages messages' : List (Str × Str)}
    (heq : messages.flatMap cutMessage = messages'.flatMap cutMessage) :
    hashedText messages = hashedText messages' := by
  have hrendered := congrArg (List.flatMap rendered) heq
  rw [rendered_cutMessages, rendered_cutMessages] at hrendered
  cases messages with
  | nil =>
    cases messages' with
    | nil => rfl
    | cons message' messages' => cases hrendered
  | cons message messages =>
    cases messages' with
    | nil => cases hrendered
    | cons message' messages' =>
      rw [rendered_hashedText (List.cons_ne_nil _ _), rendered_hashedText (List.cons_ne_nil _ _)] at hrendered
      exact List.append_cancel_left hrendered

/-- The hashed texts of two lists differ just in case the lists still differ when every message is cut at the headers in
its text. -/
theorem content_hash_injective_iff {messages messages' : List (Str × Str)} (h : ∀ message ∈ messages, Kept message)
    (h' : ∀ message ∈ messages', Kept message) : hashedText messages ≠ hashedText messages' ↔
      messages.flatMap cutMessage ≠ messages'.flatMap cutMessage :=
  not_congr ⟨cut_eq_of_hashedText_eq h h', hashedText_eq_of_cut_eq⟩

private theorem cutFrom_of_no_header (role text : Str) {rest : Str} (h : ∀ next ∈ keepRoles, ¬ header next <:+: rest) :
    cutFrom 0 role text rest = [(role, text ++ rest)] := by
  induction rest generalizing text with
  | nil => rw [List.append_nil]; rfl
  | cons c rest ih =>
    -- a header that begins here would be in the text
    have hlead : leadingRole (c :: rest) = none := by
      refine List.find?_eq_none.2 fun next hnext hprefix => ?_
      exact h next hnext (List.isPrefixOf_iff_prefix.1 hprefix).isInfix
    rw [cutFrom_text hlead, ih (text ++ [c]) fun next hnext hinfix => h next hnext (List.infix_cons hinfix)]
    rw [List.append_assoc, List.singleton_append]

private theorem flatMap_cutMessage {messages : List (Str × Str)}
    (h : ∀ message ∈ messages, ∀ next ∈ keepRoles, ¬ header next <:+: message.2) :
    messages.flatMap cutMessage = messages := by
  induction messages with
  | nil => rfl
  | cons message messages ih =>
    obtain ⟨hfirst, hrest⟩ := List.forall_mem_cons.1 h
    rw [List.flatMap_cons, ih hrest, cutMessage, cutFrom_of_no_header message.1 [] hfirst]
    rfl

/-- Lists whose texts hold no header are told apart by their hashed texts. -/
theorem hashedText_inj {messages messages' : List (Str × Str)} (h : ∀ message ∈ messages, Kept message)
    (h' : ∀ message ∈ messages', Kept message)
    (hnone : ∀ message ∈ messages ++ messages', ∀ next ∈ keepRoles, ¬ header next <:+: message.2) :
    hashedText messages = hashedText messages' ↔ messages = messages' := by
  refine ⟨fun heq => ?_, congrArg hashedText⟩
  have hcut := cut_eq_of_hashedText_eq h h' heq
  rwa [flatMap_cutMessage fun message hmessage => hnone message (List.mem_append_left _ hmessage),
    flatMap_cutMessage fun message hmessage => hnone message (List.mem_append_right _ hmessage)] at hcut

/-- Two messages, and one that quotes both. -/
def questionAnswer : List (Str × Str) := [(lit "user", lit "a"), (lit "assistant", lit "b")]

def quotation : List (Str × Str) := [(lit "user", lit "a\n\nassistant: b")]

private theorem kept_of_all {messages : List (Str × Str)} (h : messages.all (fun message =>
    message.1 ∈ keepRoles ∧ message.2 ≠ [] ∧ Py.strip message.2 = message.2) = true) :
    ∀ message ∈ messages, Kept message := by
  intro message hmessage
  obtain ⟨hrole, htext, hstripped⟩ := of_decide_eq_true (List.all_eq_true.1 h message hmessage)
  exact ⟨hrole, htext, hstripped⟩

private theorem questionAnswer_kept : ∀ message ∈ questionAnswer, Kept message := kept_of_all (by decide)

private theorem quotation_kept : ∀ message ∈ quotation, Kept message := kept_of_all (by decide)

theorem content_hash_differs : hashedText questionAnswer ≠ hashedText [(lit "user", lit "a")] :=
  (content_hash_injective_iff questionAnswer_kept (kept_of_all (by decide))).2 (by decide)

/-- The quotation is hashed as what it quotes. -/
theorem content_hash_collides : (∀ message ∈ questionAnswer, Kept message) ∧ (∀ message ∈ quotation, Kept message) ∧
    questionAnswer ≠ quotation ∧ hashedText questionAnswer = hashedText quotation :=
  ⟨questionAnswer_kept, quotation_kept, by decide, by decide⟩

/-! ### The messages of the adapter -/

/-- The messages that are hashed are of this kind. -/
theorem turnOf_kept {host : Host} {node : Fields} {turn : Turn} (h : turnOf host node = .ok (some turn)) :
    Kept (turn.role, turn.text) := by
  cases hmessage : Value.get node (lit "message") with
  | dict message =>
    rcases turnOf_eq host hmessage with ⟨-, hturn⟩ | ⟨-, hturn⟩
    · rw [h] at hturn
      split at hturn
      · rename_i hkept
        cases hid : strOf host (idOf node message) with
        | error error =>
          rw [hid] at hturn
          cases hturn
        | ok id =>
          rw [hid] at hturn
          obtain rfl := Option.some.inj (Except.ok.inj hturn)
          exact ⟨hkept.1, hkept.2, strip_extractText message⟩
      · cases hturn
    · cases h.symm.trans hturn
  | none | bool | int | float | str | list =>
    rw [turnOf, hmessage] at h
    cases h

end AgentOS.ChatGpt
