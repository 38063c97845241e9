import AgentOS.Outbox.Cursor

/-!
# Cursor files of any content

`read_cursor` and `read_inbox_cursors` catch what cannot be read, decoded or parsed, and each value that is no integer.
What they do not catch is the `RecursionError` of a text that is nested too deeply and the `OverflowError` of an
infinite float; `cursors_read_iff` says that there is nothing else.
-/

namespace AgentOS

open Py

variable {Envelope : Type} {interpreter : Interpreter} {codec : Codec Envelope} {dir : SyncDir}

/-- An offset that is returned lies in the outbox. -/
private theorem cursorOffset_range {items : List (Str × Value)} {offset : Int}
    (h : cursorOffset interpreter codec dir items = .ok offset) : 0 ≤ offset ∧ offset ≤ dir.content.length := by
  have hzero : (0 : Int) ≤ 0 ∧ (0 : Int) ≤ dir.content.length := ⟨Int.le_refl 0, Int.natCast_nonneg _⟩
  unfold cursorOffset at h
  split at h
  · split at h
    · exact Except.ok.inj h ▸ hzero
    · cases h
  · split at h
    · exact Except.ok.inj h ▸ hzero
    · split at h
      · exact Except.ok.inj h ▸ hzero
      · split at h
        · exact Except.ok.inj h ▸ hzero
        · obtain rfl := Except.ok.inj h
          omega

private theorem readCursor_range {offset : Int} (h : readCursor interpreter codec dir = .ok offset) :
    0 ≤ offset ∧ offset ≤ dir.content.length := by
  have hzero : (0 : Int) ≤ 0 ∧ (0 : Int) ≤ dir.content.length := ⟨Int.le_refl 0, Int.natCast_nonneg _⟩
  unfold readCursor at h
  split at h
  · exact Except.ok.inj h ▸ hzero
  · split at h
    · split at h
      · exact Except.ok.inj h ▸ hzero
      · cases h
    · exact cursorOffset_range h
    · exact Except.ok.inj h ▸ hzero

private theorem cursorOffset_ok_iff (items : List (Str × Value)) :
    (∃ offset, cursorOffset interpreter codec dir items = .ok offset) ↔
      ((items.lookup (lit "offset")).getD (.int 0)).isInfinite = false := by
  rcases intOf_cases interpreter.decimal ((items.lookup (lit "offset")).getD (.int 0)) with
    ⟨hinfinite, herror⟩ | ⟨hfinite, ⟨n, hint⟩ | ⟨error, herror, hcaught⟩⟩
  · refine iff_of_false ?_ (by rw [hinfinite]; decide)
    rintro ⟨offset, hok⟩
    rw [cursorOffset, herror] at hok
    cases hok
  · refine iff_of_true ?_ hfinite
    rw [cursorOffset, hint]
    dsimp only
    split
    · exact ⟨0, rfl⟩
    · split
      · exact ⟨0, rfl⟩
      · split
        · exact ⟨0, rfl⟩
        · exact ⟨n, rfl⟩
  · refine iff_of_true ⟨0, ?_⟩ hfinite
    rw [cursorOffset, herror]
    exact if_pos hcaught

private theorem inboxCursors_ok_iff {cursors : List (Str × Int)} (items : List (Str × Value)) :
    (∃ result, inboxCursors interpreter cursors items = .ok result) ↔ ∀ item ∈ items, item.2.isInfinite = false := by
  induction items generalizing cursors with
  | nil => exact iff_of_true ⟨cursors, rfl⟩ fun item hitem => absurd hitem List.not_mem_nil
  | cons item items ih =>
    rw [inboxCursors, List.forall_mem_cons]
    rcases intOf_cases interpreter.decimal item.2 with
      ⟨hinfinite, herror⟩ | ⟨hfinite, ⟨n, hint⟩ | ⟨error, herror, hcaught⟩⟩
    · rw [herror, hinfinite]
      refine iff_of_false ?_ fun h => Bool.noConfusion h.1
      rintro ⟨result, hok⟩
      cases hok
    · rw [hint, hfinite]
      exact ih.trans (by simp)
    · rw [herror, hfinite]
      dsimp only
      rw [if_pos hcaught]
      exact ih.trans (by simp)

/-- Every key occurs once in what is returned. -/
private theorem inboxCursors_nodup {cursors result : List (Str × Int)} (hnodup : (cursors.map Prod.fst).Nodup)
    {items : List (Str × Value)} (h : inboxCursors interpreter cursors items = .ok result) :
    (result.map Prod.fst).Nodup := by
  induction items generalizing cursors with
  | nil => exact Except.ok.inj h ▸ hnodup
  | cons item items ih =>
    rw [inboxCursors] at h
    split at h
    · exact ih (nodup_setItem hnodup _ _) h
    · split at h
      · exact ih hnodup h
      · cases h

/-- The text of a cursor file, where there is one, is not nested too deeply, and a dict in it is as `fits` says. -/
def Readable (interpreter : Interpreter) (text : Option Str) (fits : List (Str × Value) → Prop) : Prop :=
  ∀ t, text = some t → ¬ TooDeep interpreter.limit interpreter.float t ∧
    ∀ items, Py.loads interpreter.limit interpreter.float t = .ok (.dict items) → fits items

private theorem readable_none (fits : List (Str × Value) → Prop) : Readable interpreter none fits := by
  intro t ht
  cases ht

/-- How the parser ends on a text, and when the file is readable then. -/
private theorem readable_some (t : Str) (fits : List (Str × Value) → Prop) :
    (Py.loads interpreter.limit interpreter.float t = .error .recursionError ∧
      ¬ Readable interpreter (some t) fits) ∨
    (∃ items, Py.loads interpreter.limit interpreter.float t = .ok (.dict items) ∧
      (Readable interpreter (some t) fits ↔ fits items)) ∨
    ((Py.loads interpreter.limit interpreter.float t = .error .valueError ∨
      ∃ value, Py.loads interpreter.limit interpreter.float t = .ok value ∧ ∀ items, value ≠ .dict items) ∧
      Readable interpreter (some t) fits) := by
  have hshallow : ∀ result, Py.loads interpreter.limit interpreter.float t = result → result ≠ .error .recursionError →
      ¬ TooDeep interpreter.limit interpreter.float t := by
    rintro result hresult hne hdeep
    exact hne (hresult.symm.trans (loads_tooDeep hdeep))
  cases hloads : Py.loads interpreter.limit interpreter.float t with
  | error error =>
    rcases loads_error hloads with rfl | ⟨rfl, hdeep⟩
    · refine Or.inr (Or.inr ⟨Or.inl rfl, ?_⟩)
      rintro t' ⟨⟩
      refine ⟨hshallow _ hloads (by simp), fun items hitems => ?_⟩
      cases hloads.symm.trans hitems
    · exact Or.inl ⟨rfl, fun h => (h t rfl).1 hdeep⟩
  | ok value =>
    have hfine := hshallow _ hloads (by simp)
    by_cases hdict : ∃ items, value = .dict items
    · obtain ⟨items, rfl⟩ := hdict
      refine Or.inr (Or.inl ⟨items, rfl, fun h => (h t rfl).2 items hloads, ?_⟩)
      rintro hfits t' ⟨⟩
      refine ⟨hfine, fun items' hitems => ?_⟩
      cases hloads.symm.trans hitems
      exact hfits
    · refine Or.inr (Or.inr ⟨Or.inr ⟨value, rfl, not_exists.1 hdict⟩, ?_⟩)
      rintro t' ⟨⟩
      refine ⟨hfine, fun items hitems => ?_⟩
      exact absurd ⟨items, Except.ok.inj (hloads.symm.trans hitems)⟩ hdict

variable (codec) in
private theorem readCursor_ok_iff : (∃ offset, readCursor interpreter codec dir = .ok offset) ↔
    Readable interpreter (dir.cursor.bind (utf8 false)) fun items =>
      ((items.lookup (lit "offset")).getD (.int 0)).isInfinite = false := by
  unfold readCursor
  cases htext : dir.cursor.bind (utf8 false) with
  | none => exact iff_of_true ⟨0, rfl⟩ (readable_none _)
  | some t =>
    dsimp only
    rcases readable_some t fun items => ((items.lookup (lit "offset")).getD (.int 0)).isInfinite = false with
      ⟨hloads, hnot⟩ | ⟨items, hloads, hiff⟩ | ⟨hloads | ⟨value, hloads, hvalue⟩, hreadable⟩
    · rw [hloads]
      refine iff_of_false ?_ hnot
      rintro ⟨offset, hok⟩
      cases hok
    · rw [hloads, hiff]
      exact cursorOffset_ok_iff items
    · rw [hloads]
      exact iff_of_true ⟨0, rfl⟩ hreadable
    · rw [hloads]
      refine iff_of_true ⟨0, ?_⟩ hreadable
      cases value with
      | dict items => exact absurd rfl (hvalue items)
      | none | bool | int | float | str | list => rfl

private theorem readInboxCursors_ok_iff : (∃ cursors, readInboxCursors interpreter dir = .ok cursors) ↔
    Readable interpreter (dir.inboxCursor.bind decodeJson) fun items => ∀ item ∈ items, item.2.isInfinite = false := by
  unfold readInboxCursors
  cases dir.inboxCursor with
  | none => exact iff_of_true ⟨[], rfl⟩ (readable_none _)
  | some data =>
    rw [Option.bind_some]
    dsimp only
    cases decodeJson data with
    | none => exact iff_of_true ⟨[], rfl⟩ (readable_none _)
    | some t =>
      dsimp only
      rcases readable_some t fun items => ∀ item ∈ items, item.2.isInfinite = false with
        ⟨hloads, hnot⟩ | ⟨items, hloads, hiff⟩ | ⟨hloads | ⟨value, hloads, hvalue⟩, hreadable⟩
      · rw [hloads]
        refine iff_of_false ?_ hnot
        rintro ⟨cursors, hok⟩
        cases hok
      · rw [hloads, hiff]
        exact inboxCursors_ok_iff items
      · rw [hloads]
        exact iff_of_true ⟨[], rfl⟩ hreadable
      · rw [hloads]
        refine iff_of_true ⟨[], ?_⟩ hreadable
        cases value with
        | dict items => exact absurd rfl (hvalue items)
        | none | bool | int | float | str | list => rfl

private theorem readInboxCursors_nodup {cursors : List (Str × Int)}
    (h : readInboxCursors interpreter dir = .ok cursors) : (cursors.map Prod.fst).Nodup := by
  have hnil : (([] : List (Str × Int)).map Prod.fst).Nodup := List.nodup_nil
  unfold readInboxCursors at h
  split at h
  · exact Except.ok.inj h ▸ hnil
  · split at h
    · exact Except.ok.inj h ▸ hnil
    · split at h
      · split at h
        · exact Except.ok.inj h ▸ hnil
        · cases h
      · exact inboxCursors_nodup hnil h
      · exact Except.ok.inj h ▸ hnil

variable (interpreter codec dir) in
/-- The two files are read just in case neither is nested too deeply, the offset of `cursor.json` is no infinite float
and nothing in `inbox_cursor.json` is one.  What is read then lies in the outbox, and is a map. -/
theorem cursors_read_iff :
    ((∃ offset, readCursor interpreter codec dir = .ok offset ∧ 0 ≤ offset ∧ offset ≤ dir.content.length) ↔
      Readable interpreter (dir.cursor.bind (utf8 false)) fun items =>
        ((items.lookup (lit "offset")).getD (.int 0)).isInfinite = false) ∧
    ((∃ cursors, readInboxCursors interpreter dir = .ok cursors ∧ (cursors.map Prod.fst).Nodup) ↔
      Readable interpreter (dir.inboxCursor.bind decodeJson) fun items =>
        ∀ item ∈ items, item.2.isInfinite = false) := by
  constructor
  · refine Iff.trans (exists_congr fun offset => and_iff_left_of_imp fun h => ?_) (readCursor_ok_iff codec)
    exact readCursor_range h
  · refine Iff.trans (exists_congr fun cursors => and_iff_left_of_imp fun h => ?_) readInboxCursors_ok_iff
    exact readInboxCursors_nodup h

/-- The two files with the constant `Infinity` in them. -/
private def infiniteFiles : SyncDir where
  outbox := none
  cursor := some (encode "\x7b\"offset\": Infinity\x7d")
  inboxCursor := some (encode "\x7b\"repo_a\": Infinity\x7d")

theorem cursors_not_read :
    ¬ (∃ offset, readCursor plainInterpreter twoHashes infiniteFiles = .ok offset ∧ 0 ≤ offset ∧
      offset ≤ infiniteFiles.content.length) ∧
    ¬ ∃ cursors, readInboxCursors plainInterpreter infiniteFiles = .ok cursors ∧ (cursors.map Prod.fst).Nodup := by
  have hcursor : (readCursor plainInterpreter twoHashes infiniteFiles).toOption = none := by decide +kernel
  have hinbox : (readInboxCursors plainInterpreter infiniteFiles).toOption = none := by decide +kernel
  constructor
  · rintro ⟨offset, hok, -⟩
    rw [hok] at hcursor
    cases hcursor
  · rintro ⟨cursors, hok, -⟩
    rw [hok] at hinbox
    cases hinbox

end AgentOS
