import AgentOS.Migrations.CrashConsistency

/-!
# What `build_status` foretells

`build_status` compares the files of a directory with the rows that are recorded; it needs no bootstrap and changes
nothing.  `status_foretells` says what its answer means for the next run of `apply_pending`, whatever the database holds
and whatever fails in that run: a mismatch that is shown is a run that is refused, and otherwise the migrations that are
shown as pending are the ones that are applied, from the first one on, and all of them if no call fails.
-/

namespace AgentOS.Migrations

inductive MigrationState where
  | applied
  | pending
  | checksumMismatch
deriving DecidableEq

structure MigrationStatus where
  number : Nat
  name : String
  state : MigrationState
  storedChecksum : Option String
deriving DecidableEq

/-- `applied.get(name)`; of rows with the same name, the dict keeps the last. -/
def recordOf (applied : List LedgerRow) (name : String) : Option LedgerRow :=
  applied.reverse.find? fun row => row.name = name

/-- A round of the loop of `build_status`. -/
def statusOf (applied : List LedgerRow) (m : Migration) : MigrationStatus :=
  match recordOf applied m.name with
  | none => ⟨m.number, m.name, .pending, none⟩
  | some row =>
    if row.checksum ≠ m.checksum then ⟨m.number, m.name, .checksumMismatch, some row.checksum⟩
    else ⟨m.number, m.name, .applied, some row.checksum⟩

/-- `build_status`; `none` where a call of the driver raises. -/
def buildStatus (sha256 : List UInt8 → String) (decimal : Char → Option Nat) (files : List MigrationFile)
    (s : Session) : Option (Except DiscoveryError (List MigrationStatus)) × Session :=
  match getApplied s with
  | (none, s) => (none, s)
  | (some applied, s) =>
    (some ((discoverMigrations sha256 decimal files).map fun migrations => migrations.map (statusOf applied)), s)

/-- The names that are shown in a state. -/
def shownAs (state : MigrationState) (statuses : List MigrationStatus) : List String :=
  (statuses.filter fun status => status.state = state).map MigrationStatus.name

/-- The row of a migration. -/
def Migration.row (m : Migration) : LedgerRow := ⟨m.name, m.checksum⟩

variable {s : Session} {m : Migration} {ms : List Migration} {rows applied : List LedgerRow}
  {auto there : Bool}

/-! ### What a status says of the records -/

theorem recordOf_eq_none_iff (name : String) :
    recordOf applied name = none ↔ name ∉ applied.map LedgerRow.name := by
  rw [recordOf, List.find?_eq_none]
  simp [eq_comm]

theorem recordOf_append (name : String) :
    recordOf (applied ++ rows) name = (recordOf rows name).or (recordOf applied name) := by
  rw [recordOf, List.reverse_append, List.find?_append]
  rfl

theorem statusOf_name (applied : List LedgerRow) (m : Migration) : (statusOf applied m).name = m.name := by
  unfold statusOf
  split
  · rfl
  · split <;> rfl

theorem pending_iff : (statusOf applied m).state = .pending ↔ m.name ∉ applied.map LedgerRow.name := by
  rw [← recordOf_eq_none_iff]
  unfold statusOf
  cases recordOf applied m.name with
  | none => simp
  | some row =>
    by_cases hchecksum : row.checksum = m.checksum
    · simp [hchecksum]
    · simp [hchecksum]

theorem mismatch_iff : (statusOf applied m).state = .checksumMismatch ↔ isMismatch applied m = true := by
  unfold statusOf isMismatch
  rw [recordOf]
  cases applied.reverse.find? fun row => row.name = m.name with
  | none => simp
  | some row =>
    by_cases hchecksum : row.checksum = m.checksum
    · simp [hchecksum]
    · simp [hchecksum]

/-- The names that a run would apply, or refuse. -/
theorem shownAs_statuses (state : MigrationState) (applied : List LedgerRow) (ms : List Migration) :
    shownAs state (ms.map (statusOf applied)) =
      (ms.filter fun m => (statusOf applied m).state = state).map Migration.name := by
  unfold shownAs
  rw [List.filter_map, List.map_map]
  exact List.map_congr_left fun m _ => statusOf_name applied m

/-- With the rows of some migrations more, these are applied and the others are what they were. -/
theorem state_append (applied : List LedgerRow) {ps : List Migration} (hsub : ∀ p ∈ ps, p ∈ ms)
    (hdistinct : (ms.map Migration.name).Nodup) (hm : m ∈ ms) : (statusOf (applied ++ ps.map Migration.row) m).state =
      if m.name ∈ ps.map Migration.name then .applied else (statusOf applied m).state := by
  have hnames : (ps.map Migration.row).map LedgerRow.name = ps.map Migration.name := by
    rw [List.map_map]
    rfl
  split
  case isTrue hmem =>
    cases hrecord : recordOf (ps.map Migration.row) m.name with
    | none =>
      rw [recordOf_eq_none_iff, hnames] at hrecord
      exact absurd hmem hrecord
    | some row =>
      have hname : row.name = m.name := by simpa using List.find?_some hrecord
      have hrow := List.mem_reverse.1 (List.mem_of_find?_eq_some hrecord)
      obtain ⟨p, hp, rfl⟩ := List.mem_map.1 hrow
      -- names are distinct, so the row is the one of the migration itself
      obtain rfl : p = m := List.inj_on_of_nodup_map hdistinct (hsub p hp) hm hname
      unfold statusOf
      rw [recordOf_append, hrecord]
      simp [Migration.row]
  case isFalse hmem =>
    have hrecord : recordOf (ps.map Migration.row) m.name = none := by
      rw [recordOf_eq_none_iff, hnames]
      exact hmem
    unfold statusOf
    rw [recordOf_append, hrecord, Option.none_or]

/-! ### Calls of the driver -/

/-- The table is there, in what is committed and in what the transaction sees. -/
private def Tabled (s : Session) : Prop := s.committed.table = true ∧ s.working.table = true

/-- A statement that writes no row and drops no table. -/
private def Keeps (f : Db → Db) : Prop := ∀ db, (f db).ledger = db.ledger ∧ (db.table = true → (f db).table = true)

private theorem keeps_id : Keeps id := fun _ => ⟨rfl, id⟩

private theorem keeps_schema : Keeps fun db => { db with schema := true } := fun _ => ⟨rfl, id⟩

private theorem keeps_table : Keeps fun db => { db with table := true } := fun _ => ⟨rfl, fun _ => rfl⟩

private theorem keeps_effects (left : List String) : Keeps fun db => { db with effects := db.effects ++ left } :=
  fun _ => ⟨rfl, id⟩

/-- What is committed and what the transaction sees have the same rows. -/
private structure Holding (auto there : Bool) (rows : List LedgerRow) (s : Session) : Prop where
  mode : s.autocommit = auto
  committed : s.committed.ledger = rows
  working : s.working.ledger = rows
  tabled : there = true → Tabled s

/-- Calls that leave the rows as they are; they do not fail in a calm session. -/
private def Leaves (auto there : Bool) (rows : List LedgerRow) (s : Session) (r : Bool × Session) : Prop :=
  Holding auto there rows r.2 ∧ (s.Calm → r.1 = true ∧ r.2.Calm)

private theorem holding_advance (h : Holding auto there rows s) : Holding auto there rows s.advance :=
  ⟨h.mode, h.committed, h.working, h.tabled⟩

/-- A statement that drops no table. -/
private theorem tabled_write (h : Tabled s) {f : Db → Db} (hf : ∀ db, db.table = true → (f db).table = true) :
    Tabled (s.write f) := by
  refine ⟨?_, hf _ h.2⟩
  show (if s.autocommit then f s.working else s.committed).table = true
  split
  · exact hf _ h.2
  · exact h.1

private theorem holding_write (h : Holding auto there rows s) {f : Db → Db} (hf : Keeps f) :
    Holding auto there rows (s.write f) := by
  refine ⟨h.mode, ?_, (hf _).1.trans h.working, fun hthere => tabled_write (h.tabled hthere) fun db => (hf db).2⟩
  show (if s.autocommit then f s.working else s.committed).ledger = rows
  split
  · exact (hf _).1.trans h.working
  · exact h.committed

private theorem leaves_execute (h : Holding auto there rows s) {f : Db → Db} (hf : Keeps f) :
    Leaves auto there rows s (s.execute f) := by
  unfold Leaves Session.execute
  split
  case h_1 => exact ⟨holding_write (holding_advance h) hf, fun hcalm => ⟨rfl, (calm_advance hcalm).2⟩⟩
  case h_2 houtcome =>
    refine ⟨holding_advance h, fun hcalm => ?_⟩
    cases houtcome.symm.trans (calm_advance hcalm).1
  case h_3 houtcome =>
    refine ⟨holding_write (holding_advance h) hf, fun hcalm => ?_⟩
    cases houtcome.symm.trans (calm_advance hcalm).1

private theorem leaves_executeBatch (h : Holding auto there rows s) (batch : String) :
    Leaves auto there rows s (s.executeBatch batch) := by
  have hadvanced := holding_advance h
  unfold Leaves Session.executeBatch
  split
  case h_1 =>
    exact ⟨holding_write hadvanced (keeps_effects _), fun hcalm => ⟨rfl, (calm_advance hcalm).2⟩⟩
  case h_2 houtcome =>
    refine ⟨holding_write hadvanced (keeps_effects _), fun hcalm => ?_⟩
    cases houtcome.symm.trans (calm_advance hcalm).1
  case h_3 houtcome =>
    refine ⟨holding_write hadvanced (keeps_effects _), fun hcalm => ?_⟩
    cases houtcome.symm.trans (calm_advance hcalm).1

private theorem tabled_commit (hmode : s.autocommit = false) (h : Tabled s) : Tabled s.commit.2 := by
  obtain ⟨-, hworking, hcommitted, -, -⟩ := commit_spec hmode
  refine ⟨?_, hworking ▸ h.2⟩
  rcases hcommitted with hcommitted | hcommitted
  · rw [hcommitted]
    exact h.1
  · rw [hcommitted]
    exact h.2

private theorem leaves_commit (h : Holding false there rows s) : Leaves false there rows s s.commit := by
  obtain ⟨hmode, hworking, hcommitted, -, hcalm⟩ := commit_spec h.mode
  refine ⟨⟨hmode, ?_, hworking ▸ h.working, fun hthere => ?_⟩, hcalm⟩
  · rcases hcommitted with hcommitted | hcommitted
    · rw [hcommitted]
      exact h.committed
    · rw [hcommitted]
      exact h.working
  · exact tabled_commit h.mode (h.tabled hthere)

private theorem Leaves.andThen {r : Bool × Session} {f : Session → Bool × Session} (h : Leaves auto there rows s r)
    (hf : ∀ s', Holding auto there rows s' → Leaves auto there rows s' (f s')) :
    Leaves auto there rows s (andThen r f) := by
  have hnext := hf r.2 h.1
  unfold Migrations.andThen
  split
  case isTrue => exact ⟨hnext.1, fun hcalm => hnext.2 (h.2 hcalm).2⟩
  case isFalse => exact h

/-- What the last of two calls achieves. -/
private theorem Leaves.achieves {r : Bool × Session} {f : Session → Bool × Session} {goal : Session → Prop}
    (h : Leaves auto there rows s r)
    (hf : ∀ s', Holding auto there rows s' → (f s').1 = true → goal (f s').2)
    (hdone : (Migrations.andThen r f).1 = true) : goal (Migrations.andThen r f).2 := by
  unfold Migrations.andThen at hdone ⊢
  split
  case isTrue hnext =>
    rw [if_pos hnext] at hdone
    exact hf r.2 h.1 hdone
  case isFalse hraised =>
    rw [if_neg hraised] at hdone
    exact absurd hdone hraised

private theorem leaves_executeBatches (batches : List String) (h : Holding auto there rows s) :
    Leaves auto there rows s (executeBatches batches s) := by
  induction batches generalizing s with
  | nil => exact ⟨h, fun hcalm => ⟨rfl, hcalm⟩⟩
  | cons batch batches ih =>
    have hfirst := leaves_executeBatch h batch
    exact hfirst.andThen fun s' hs' => ih hs'

/-! ### One migration -/

/-- The row of a migration is added, or the calls raise. -/
private structure Adds (auto : Bool) (rows : List LedgerRow) (m : Migration) (s : Session) (r : Bool × Session) :
    Prop where
  mode : r.2.autocommit = auto
  tabled : Tabled r.2
  committed : r.2.committed.ledger = rows ∨ r.2.committed.ledger = rows ++ [m.row]
  working : r.2.working.ledger = rows ∨ r.2.working.ledger = rows ++ [m.row]
  manual : auto = false → r.2.committed.ledger = rows
  done : r.1 = true → r.2.working.ledger = rows ++ [m.row] ∧
    (auto = true → r.2.committed.ledger = rows ++ [m.row])
  calm : s.Calm → r.1 = true ∧ r.2.Calm

private theorem adds_insert (h : Holding auto true rows s) (m : Migration) :
    Adds auto rows m s (s.execute (insertApplied m)) := by
  have hworking : (insertApplied m s.working).ledger = rows ++ [m.row] := by
    show s.working.ledger ++ [⟨m.name, m.checksum⟩] = rows ++ [m.row]
    rw [h.working]
    rfl
  have hcommitted : (s.advance.write (insertApplied m)).committed.ledger =
      if auto then rows ++ [m.row] else rows := by
    show (if s.autocommit then insertApplied m s.working else s.committed).ledger = _
    rw [h.mode]
    cases auto with
    | true => exact hworking
    | false => exact h.committed
  have htabled : Tabled (s.advance.write (insertApplied m)) := by
    refine tabled_write (holding_advance h |>.tabled rfl) ?_
    intro db hdb
    exact hdb
  unfold Session.execute
  split
  case h_1 =>
    refine ⟨h.mode, htabled, ?_, .inr hworking, ?_, fun _ => ⟨hworking, ?_⟩, fun hcalm => ⟨rfl, (calm_advance hcalm).2⟩⟩
    · rw [hcommitted]
      cases auto with
      | true => exact .inr rfl
      | false => exact .inl rfl
    · rintro rfl
      exact hcommitted
    · rintro rfl
      exact hcommitted
  case h_2 houtcome =>
    refine ⟨h.mode, h.tabled rfl, .inl h.committed, .inl h.working, fun _ => h.committed, by simp, fun hcalm => ?_⟩
    cases houtcome.symm.trans (calm_advance hcalm).1
  case h_3 houtcome =>
    refine ⟨h.mode, htabled, ?_, .inr hworking, ?_, by simp, fun hcalm => ?_⟩
    · rw [hcommitted]
      cases auto with
      | true => exact .inr rfl
      | false => exact .inl rfl
    · rintro rfl
      exact hcommitted
    · cases houtcome.symm.trans (calm_advance hcalm).1

/-- The batches and the row. -/
private theorem adds_batches (h : Holding auto true rows s) (m : Migration) : Adds auto rows m s
    (andThen (executeBatches (splitBatches m.text) s) fun s => s.execute (insertApplied m)) := by
  obtain ⟨hheld, hcalm⟩ := leaves_executeBatches (splitBatches m.text) h
  unfold andThen
  split
  case isTrue hnext =>
    have hrow := adds_insert hheld m
    exact ⟨hrow.mode, hrow.tabled, hrow.committed, hrow.working, hrow.manual, hrow.done,
      fun hs => hrow.calm (hcalm hs).2⟩
  case isFalse hraised =>
    refine ⟨hheld.mode, hheld.tabled rfl, .inl hheld.committed, .inl hheld.working, fun _ => hheld.committed, ?_, hcalm⟩
    intro hdone
    exact absurd hdone hraised

/-- A run between two migrations, or behind one that has raised. -/
private structure Moves (rows rows' : List LedgerRow) (s : Session) (r : Bool × Session) : Prop where
  tabled : r.2.committed.table = true
  committed : r.2.committed.ledger = rows ∨ r.2.committed.ledger = rows'
  done : r.1 = true → Holding false true rows' r.2
  calm : s.Calm → r.1 = true ∧ r.2.Calm

/-- A migration is recorded or not, in a transaction of its own or without one. -/
private theorem moves_applyMigration (h : Holding false true rows s) (m : Migration) :
    Moves rows (rows ++ [m.row]) s (applyMigration m s) := by
  unfold applyMigration
  split
  case isTrue =>
    unfold applyMigrationAutocommit andThen
    obtain ⟨hheld, hcommitCalm⟩ := leaves_commit h
    split
    case isTrue =>
      have hauto : Holding true true rows { s.commit.2 with autocommit := true } :=
        ⟨rfl, hheld.committed, hheld.working, hheld.tabled⟩
      have hadds := adds_batches hauto m
      refine ⟨hadds.tabled.1, hadds.committed, fun hdone => ?_, fun hs => hadds.calm (hcommitCalm hs).2⟩
      obtain ⟨hworking, hcommitted⟩ := hadds.done hdone
      exact ⟨rfl, hcommitted rfl, hworking, fun _ => hadds.tabled⟩
    case isFalse hraised =>
      exact ⟨(hheld.tabled rfl).1, .inl hheld.committed, fun hdone => absurd hdone hraised, hcommitCalm⟩
  case isFalse =>
    have hadds := adds_batches h m
    unfold applyMigrationTransactional
    generalize andThen (executeBatches (splitBatches m.text) s) (fun s => s.execute (insertApplied m)) = r at hadds
    dsimp only
    split
    case isTrue hdone =>
      obtain ⟨hmode, hworking, hcommitted, hsuccess, hcalm⟩ := commit_spec hadds.mode
      have hrow := (hadds.done hdone).1
      have htabled := tabled_commit hadds.mode hadds.tabled
      refine ⟨htabled.1, ?_, fun h => ⟨hmode, ?_, ?_, fun _ => htabled⟩, fun hs => hcalm (hadds.calm hs).2⟩
      · rcases hcommitted with hcommitted | hcommitted
        · rw [hcommitted]
          exact .inl (hadds.manual rfl)
        · rw [hcommitted]
          exact .inr hrow
      · rw [hsuccess h]
        exact hrow
      · rw [hworking]
        exact hrow
    case isFalse hraised =>
      exact ⟨hadds.tabled.1, .inl (hadds.manual rfl), by simp, fun hs => absurd (hadds.calm hs).1 hraised⟩

/-! ### A run -/

/-- What is left to apply. -/
private def pendingOf (applied : List LedgerRow) (ms : List Migration) : List Migration :=
  ms.filter fun m => m.name ∉ applied.map LedgerRow.name

/-- The loop adds rows of what is pending, from the first one on. -/
private theorem applyLoop_adds (now : List String) (h : Holding false true rows s) :
    (applyLoop applied ms now s).2.committed.table = true ∧
    (∃ k ≤ (pendingOf applied ms).length, (applyLoop applied ms now s).2.committed.ledger =
      rows ++ ((pendingOf applied ms).take k).map Migration.row) ∧
    (s.Calm → (applyLoop applied ms now s).1 = some (now ++ (pendingOf applied ms).map Migration.name) ∧
      (applyLoop applied ms now s).2.committed.ledger = rows ++ (pendingOf applied ms).map Migration.row) := by
  induction ms generalizing s rows now with
  | nil =>
    refine ⟨(h.tabled rfl).1, ⟨0, Nat.le_refl _, ?_⟩, fun _ => ?_⟩
    · simp [applyLoop, pendingOf, h.committed]
    · simp [applyLoop, pendingOf, h.committed]
  | cons m ms ih =>
    unfold applyLoop
    by_cases hm : m.name ∈ applied.map LedgerRow.name
    · have hskip : pendingOf applied (m :: ms) = pendingOf applied ms := by
        rw [pendingOf, List.filter_cons_of_neg (by simpa using hm)]
        rfl
      rw [if_pos hm, hskip]
      exact ih now h
    · have hfirst : pendingOf applied (m :: ms) = m :: pendingOf applied ms := by
        rw [pendingOf, List.filter_cons_of_pos (by simpa using hm)]
        rfl
      rw [if_neg hm, hfirst]
      have hmoves := moves_applyMigration h m
      split
      case h_1 s' hs' =>
        rw [hs'] at hmoves
        obtain ⟨htable, ⟨k, hk, hcommitted⟩, hcalm⟩ := ih (now ++ [m.name]) (hmoves.done rfl)
        refine ⟨htable, ⟨k + 1, Nat.succ_le_succ hk, ?_⟩, fun hs => ?_⟩
        · rw [hcommitted, List.take_succ_cons, List.map_cons, List.append_assoc]
          rfl
        · obtain ⟨hnames, hledger⟩ := hcalm (hmoves.calm hs).2
          rw [hnames, hledger, List.map_cons, List.map_cons, List.append_assoc, List.append_assoc]
          exact ⟨rfl, rfl⟩
      case h_2 s' hs' =>
        rw [hs'] at hmoves
        refine ⟨hmoves.tabled, ?_, fun hs => absurd (hmoves.calm hs).1 Bool.false_ne_true⟩
        rcases hmoves.committed with hcommitted | hcommitted
        · exact ⟨0, Nat.zero_le _, by rw [hcommitted, List.take_zero, List.map_nil, List.append_nil]⟩
        · exact ⟨1, by simp, by rw [hcommitted]; rfl⟩

/-! ### Before and behind the loop -/

private theorem leaves_unless (present : Bool) (h : Holding auto there rows s) {f : Db → Db} (hf : Keeps f) :
    Leaves auto there rows s (if present then (true, s) else s.execute f) := by
  cases present with
  | true => exact ⟨h, fun hcalm => ⟨rfl, hcalm⟩⟩
  | false => exact leaves_execute h hf

/-- A table that the transaction sees is committed. -/
private theorem tabled_created {r : Bool × Session} (hmode : r.2.autocommit = false)
    (htable : r.1 = true → r.2.working.table = true) (hdone : (andThen r fun s => s.commit).1 = true) :
    Tabled (andThen r fun s => s.commit).2 := by
  obtain ⟨-, hworking, -, hsuccess, -⟩ := commit_spec hmode
  unfold andThen at hdone ⊢
  split
  case isTrue hnext =>
    rw [if_pos hnext] at hdone
    refine ⟨?_, ?_⟩
    · rw [hsuccess hdone]
      exact htable hnext
    · rw [hworking]
      exact htable hnext
  case isFalse hraised =>
    rw [if_neg hraised] at hdone
    exact absurd hdone hraised

/-- A bootstrap adds no rows; one that does not raise leaves the table there. -/
private theorem ensureBootstrap_spec (h : Holding false there rows s) :
    Leaves false there rows s (ensureBootstrap s) ∧
      ((ensureBootstrap s).1 = true → Tabled (ensureBootstrap s).2) := by
  unfold ensureBootstrap
  constructor
  · refine (leaves_execute h keeps_id).andThen fun s₁ h₁ => ?_
    refine (leaves_unless _ h₁ keeps_schema).andThen fun s₂ h₂ => ?_
    refine (leaves_execute h₂ keeps_id).andThen fun s₃ h₃ => ?_
    exact (leaves_unless _ h₃ keeps_table).andThen fun s₄ h₄ => leaves_commit h₄
  · refine (leaves_execute h keeps_id).achieves fun s₁ h₁ => ?_
    refine (leaves_unless _ h₁ keeps_schema).achieves fun s₂ h₂ => ?_
    refine (leaves_execute h₂ keeps_id).achieves fun s₃ h₃ hdone => ?_
    have hcreated := leaves_unless s₃.working.table h₃ keeps_table
    -- the table was there, or has been created
    have htable : (if s₃.working.table then (true, s₃)
        else s₃.execute fun db => { db with table := true }).1 = true →
        (if s₃.working.table then (true, s₃)
          else s₃.execute fun db => { db with table := true }).2.working.table = true := by
      cases hthere : s₃.working.table with
      | true =>
        intro _
        exact hthere
      | false =>
        rw [if_neg Bool.false_ne_true]
        unfold Session.execute
        split
        · intro _
          rfl
        · simp
        · simp
    exact tabled_created hcreated.1.mode htable hdone

/-- A statement that only reads. -/
private theorem execute_id (hmode : s.autocommit = false) :
    (s.execute id).2.committed = s.committed ∧ (s.execute id).2.working = s.working := by
  have hwrite : (s.advance.write id).committed = s.committed := by
    show (if s.autocommit then s.working else s.committed) = s.committed
    rw [hmode]
    rfl
  unfold Session.execute
  split
  · exact ⟨hwrite, rfl⟩
  · exact ⟨rfl, rfl⟩
  · exact ⟨hwrite, rfl⟩

/-- What `get_applied` reads, without a change. -/
private theorem getApplied_reads (h : Holding false there rows s) (htable : s.working.table = false → rows = []) :
    Holding false there rows (getApplied s).2 ∧ (getApplied s).2.committed = s.committed ∧
      (∀ read, (getApplied s).1 = some read → read = rows) ∧
      (s.Calm → (getApplied s).1 = some rows ∧ (getApplied s).2.Calm) := by
  obtain ⟨h₁, hcalm₁⟩ := leaves_execute h keeps_id
  obtain ⟨hcommitted₁, hworking₁⟩ := execute_id h.mode
  unfold getApplied
  split
  case h_1 s₁ hs₁ =>
    rw [hs₁] at h₁ hcalm₁ hcommitted₁
    exact ⟨h₁, hcommitted₁, by simp, fun hs => absurd (hcalm₁ hs).1 Bool.false_ne_true⟩
  case h_2 s₁ hs₁ =>
    rw [hs₁] at h₁ hcalm₁ hcommitted₁ hworking₁
    obtain ⟨h₂, hcalm₂⟩ := leaves_execute h₁ keeps_id
    obtain ⟨hcommitted₂, -⟩ := execute_id h₁.mode
    split
    case isTrue =>
      split
      case h_1 s₂ hs₂ =>
        rw [hs₂] at h₂ hcalm₂ hcommitted₂
        refine ⟨h₂, hcommitted₂.trans hcommitted₁, by simp, fun hs => ?_⟩
        exact absurd (hcalm₂ (hcalm₁ hs).2).1 Bool.false_ne_true
      case h_2 s₂ hs₂ =>
        rw [hs₂] at h₂ hcalm₂ hcommitted₂
        refine ⟨h₂, hcommitted₂.trans hcommitted₁, ?_, fun hs => ⟨congrArg some h₂.working, (hcalm₂ (hcalm₁ hs).2).2⟩⟩
        intro read hread
        rw [← Option.some.inj hread]
        exact h₂.working
    case isFalse hnone =>
      have hrows : rows = [] := by
        refine htable ?_
        rw [← hworking₁]
        simpa using hnone
      refine ⟨h₁, hcommitted₁, ?_, fun hs => ⟨by rw [hrows], (hcalm₁ hs).2⟩⟩
      intro read hread
      rw [hrows]
      exact (Option.some.inj hread).symm

/-! ### What a status foretells -/

/-- What a run made of a database whose status was `statuses`; `after` is the status behind it. -/
structure Foretold (statuses : List MigrationStatus) (calm : Prop) (rows : List LedgerRow) (r : Result × Session)
    (after : List MigrationStatus → Prop) : Prop where
  fresh : r.2.committed.table = false → r.2.committed.ledger = []
  refused : shownAs .checksumMismatch statuses ≠ [] → r.2.committed.ledger = rows ∧
    (calm → r.1 = .checksumMismatch (shownAs .checksumMismatch statuses))
  applied : shownAs .checksumMismatch statuses = [] → ∃ k ≤ (shownAs .pending statuses).length,
    (calm → r.1 = .applied (shownAs .pending statuses) ∧ k = (shownAs .pending statuses).length) ∧
    ∀ statuses', after statuses' → statuses'.map (fun status => (status.name, status.state)) =
      statuses.map fun status => (status.name,
        if status.name ∈ (shownAs .pending statuses).take k then .applied else status.state)

variable {sha256 : List UInt8 → String} {decimal : Char → Option Nat} {files : List MigrationFile}
  {migrations : List Migration}

private theorem holding_begin (s : Session) {a : Attempt} (ha : a.reconnects = true) :
    Holding false s.committed.table s.committed.ledger (s.begin a) := by
  refine ⟨rfl, rfl, ?_, fun hthere => ⟨hthere, ?_⟩⟩
  · show (if a.reconnects then s.committed else s.working).ledger = s.committed.ledger
    rw [ha]
    rfl
  · show (if a.reconnects then s.committed else s.working).table = true
    rw [ha]
    exact hthere

private theorem working_begin (s : Session) {a : Attempt} (ha : a.reconnects = true) :
    (s.begin a).working = s.committed := by
  show (if a.reconnects then s.committed else s.working) = s.committed
  rw [ha]
  rfl

/-- A status is read off the directory and the rows. -/
private theorem buildStatus_spec {s : Session} {look : Attempt} (hlook : look.reconnects = true)
    (htable : s.committed.table = false → s.committed.ledger = [])
    (hdiscover : discoverMigrations sha256 decimal look.files = .ok migrations) :
    (∀ statuses, (buildStatus sha256 decimal look.files (s.begin look)).1 = some (.ok statuses) →
      statuses = migrations.map (statusOf s.committed.ledger)) ∧
    ((s.begin look).Calm → (buildStatus sha256 decimal look.files (s.begin look)).1 =
      some (.ok (migrations.map (statusOf s.committed.ledger)))) := by
  have hstart := working_begin s hlook
  obtain ⟨-, -, hread, hcalm⟩ :=
    getApplied_reads (holding_begin s hlook) fun hnone => htable (by rw [← hstart]; exact hnone)
  unfold buildStatus
  split
  case h_1 hraised =>
    rw [hraised] at hcalm
    refine ⟨by simp, fun hs => ?_⟩
    cases (hcalm hs).1
  case h_2 applied s' happlied =>
    rw [happlied] at hread
    obtain rfl := hread applied rfl
    rw [hdiscover]
    refine ⟨fun statuses h => ?_, fun _ => rfl⟩
    exact (Except.ok.inj (Option.some.inj h)).symm

/-- `build_status` changes nothing. -/
theorem buildStatus_committed {s : Session} {look : Attempt} (hlook : look.reconnects = true)
    (htable : s.committed.table = false → s.committed.ledger = []) :
    (buildStatus sha256 decimal look.files (s.begin look)).2.committed = s.committed := by
  have hstart := working_begin s hlook
  obtain ⟨-, hcommitted, -, -⟩ :=
    getApplied_reads (holding_begin s hlook) fun hnone => htable (by rw [← hstart]; exact hnone)
  unfold buildStatus
  split
  case h_1 happlied =>
    rw [happlied] at hcommitted
    exact hcommitted
  case h_2 happlied =>
    rw [happlied] at hcommitted
    exact hcommitted

/-- The names that a run refuses. -/
private def mismatchesOf (applied : List LedgerRow) (ms : List Migration) : List String :=
  (ms.filter (isMismatch applied)).map Migration.name

/-- A run adds rows of what is pending, from the first one on, unless it is refused. -/
private structure Runs (rows : List LedgerRow) (ms : List Migration) (calm : Prop) (r : Result × Session) : Prop where
  fresh : r.2.committed.table = false → r.2.committed.ledger = []
  refused : mismatchesOf rows ms ≠ [] → r.2.committed.ledger = rows ∧
    (calm → r.1 = .checksumMismatch (mismatchesOf rows ms))
  applied : mismatchesOf rows ms = [] → ∃ k ≤ (pendingOf rows ms).length,
    r.2.committed.ledger = rows ++ ((pendingOf rows ms).take k).map Migration.row ∧
    (calm → k = (pendingOf rows ms).length ∧ r.1 = .applied ((pendingOf rows ms).map Migration.name))

/-- A run that a call has ended before the loop. -/
private theorem runs_failed {calm : Prop} (hfresh : s.committed.table = false → s.committed.ledger = [])
    (hrows : s.committed.ledger = rows) (hfails : ¬ calm) : Runs rows ms calm (.failed, s) := by
  refine ⟨hfresh, fun _ => ⟨hrows, fun hcalm => absurd hcalm hfails⟩, fun _ => ?_⟩
  refine ⟨0, Nat.zero_le _, ?_, fun hcalm => absurd hcalm hfails⟩
  rw [hrows, List.take_zero, List.map_nil, List.append_nil]

private theorem runs_attempt {s : Session} {a : Attempt} (ha : a.reconnects = true)
    (htable : s.committed.table = false → s.committed.ledger = [])
    (hdiscover : discoverMigrations sha256 decimal a.files = .ok migrations) :
    Runs s.committed.ledger migrations (s.begin a).Calm (attempt sha256 decimal s a) := by
  obtain ⟨⟨hbooted, hbootCalm⟩, htabled⟩ := ensureBootstrap_spec (holding_begin s ha)
  unfold attempt applyPending
  split
  case h_1 s₁ hs₁ =>
    rw [hs₁] at hbooted hbootCalm
    refine runs_failed (fun hnone => ?_) hbooted.committed fun hs => absurd (hbootCalm hs).1 Bool.false_ne_true
    cases hthere : s.committed.table with
    | false => exact hbooted.committed.trans (htable hthere)
    | true => exact absurd (hnone.symm.trans (hbooted.tabled hthere).1) Bool.false_ne_true
  case h_2 s₁ hs₁ =>
    rw [hs₁] at hbooted hbootCalm htabled
    have hready : Holding false true s.committed.ledger s₁ :=
      ⟨hbooted.mode, hbooted.committed, hbooted.working, fun _ => htabled rfl⟩
    obtain ⟨hread, -, hrows, hreadCalm⟩ :=
      getApplied_reads hready fun hnone => absurd (hnone.symm.trans (htabled rfl).2) Bool.false_ne_true
    have hfresh {s' : Session} (h : s'.committed.table = true) (hnone : s'.committed.table = false) :
        s'.committed.ledger = [] := absurd (hnone.symm.trans h) Bool.false_ne_true
    rw [hdiscover]
    dsimp only
    split
    case h_1 s₂ hs₂ =>
      rw [hs₂] at hread hreadCalm
      refine runs_failed (hfresh (hread.tabled rfl).1) hread.committed fun hs => ?_
      cases (hreadCalm (hbootCalm hs).2).1
    case h_2 read s₂ hs₂ =>
      rw [hs₂] at hread hrows hreadCalm
      obtain rfl := hrows read rfl
      split
      case isTrue hmismatch =>
        refine ⟨hfresh (hread.tabled rfl).1, fun _ => ⟨hread.committed, fun _ => rfl⟩, fun hnone => ?_⟩
        exact absurd hnone hmismatch
      case isFalse hnone =>
        obtain ⟨htable₃, ⟨k, hk, hledger⟩, hloopCalm⟩ := applyLoop_adds [] hread
        have hcalm (hs : (s.begin a).Calm) := hloopCalm (hreadCalm (hbootCalm hs).2).2
        split
        case h_1 s₃ hs₃ =>
          rw [hs₃] at htable₃ hledger hcalm
          refine ⟨hfresh htable₃, fun hmismatch => absurd hmismatch hnone, fun _ => ⟨k, hk, hledger, fun hs => ?_⟩⟩
          cases (hcalm hs).1
        case h_2 names s₃ hs₃ =>
          rw [hs₃] at htable₃ hledger hcalm
          refine ⟨hfresh htable₃, fun hmismatch => absurd hmismatch hnone, fun _ => ?_⟩
          refine ⟨k, hk, hledger, fun hs => ⟨?_, ?_⟩⟩
          · -- the rows that were added are those of all that was pending
            have hsame := List.append_cancel_left (hledger.symm.trans (hcalm hs).2)
            have hlength := congrArg List.length hsame
            rw [List.length_map, List.length_map, List.length_take] at hlength
            omega
          · exact congrArg Result.applied (Option.some.inj (hcalm hs).1)

private theorem mem_pendingOf (h : m ∈ pendingOf applied ms) : m ∈ ms := (List.mem_filter.1 h).1

private theorem shownAs_mismatch :
    shownAs .checksumMismatch (ms.map (statusOf applied)) = mismatchesOf applied ms := by
  rw [shownAs_statuses, mismatchesOf]
  congr 1
  refine List.filter_congr fun m _ => ?_
  rw [Bool.eq_iff_iff, decide_eq_true_iff]
  exact mismatch_iff

private theorem shownAs_pending :
    shownAs .pending (ms.map (statusOf applied)) = (pendingOf applied ms).map Migration.name := by
  rw [shownAs_statuses, pendingOf]
  congr 1
  refine List.filter_congr fun m _ => ?_
  rw [decide_eq_decide]
  exact pending_iff

/-- `build_status` changes nothing, shows a status unless a call raises, and what it shows is what the next run of
`apply_pending` makes of the same directory, whatever the outcomes of its calls. -/
theorem status_foretells (s : Session) (look a : Attempt) (hlook : look.reconnects = true) (ha : a.reconnects = true)
    (hfiles : a.files = look.files) (htable : s.committed.table = false → s.committed.ledger = [])
    (hdiscover : discoverMigrations sha256 decimal look.files = .ok migrations) :
    (buildStatus sha256 decimal look.files (s.begin look)).2.committed = s.committed ∧
    ((∀ o ∈ look.outcomes, o = .succeeds) →
      ∃ statuses, (buildStatus sha256 decimal look.files (s.begin look)).1 = some (.ok statuses)) ∧
    ∀ statuses, (buildStatus sha256 decimal look.files (s.begin look)).1 = some (.ok statuses) →
      Foretold statuses (∀ o ∈ a.outcomes, o = .succeeds) s.committed.ledger (attempt sha256 decimal s a)
        fun statuses' => ∃ later : Attempt, later.reconnects = true ∧ later.files = look.files ∧
          (buildStatus sha256 decimal later.files ((attempt sha256 decimal s a).2.begin later)).1 =
            some (.ok statuses') := by
  obtain ⟨hshown, hcalm⟩ := buildStatus_spec hlook htable hdiscover
  obtain ⟨-, hdistinct, -⟩ := of_discoverMigrations hdiscover
  refine ⟨buildStatus_committed hlook htable, fun hs => ⟨_, hcalm hs⟩, fun statuses hstatuses => ?_⟩
  obtain rfl := hshown statuses hstatuses
  obtain ⟨hfresh, hrefused, happlied⟩ := runs_attempt ha htable (hfiles ▸ hdiscover)
  rw [← shownAs_mismatch] at hrefused happlied
  refine ⟨hfresh, hrefused, fun hnone => ?_⟩
  obtain ⟨k, hk, hledger, hall⟩ := happlied hnone
  rw [shownAs_pending, List.length_map]
  refine ⟨k, hk, fun hs => ⟨(hall hs).2, (hall hs).1⟩, ?_⟩
  rintro statuses' ⟨later, hlater, hlaterFiles, hafter⟩
  obtain rfl := (buildStatus_spec hlater hfresh (hlaterFiles ▸ hdiscover)).1 statuses' hafter
  rw [List.map_map, List.map_map]
  refine List.map_congr_left fun m hm => Prod.ext ?_ ?_
  · exact (statusOf_name _ m).trans (statusOf_name _ m).symm
  · have hsub : ∀ p ∈ (pendingOf s.committed.ledger migrations).take k, p ∈ migrations :=
      fun p hp => mem_pendingOf (List.mem_of_mem_take hp)
    have hstate := state_append s.committed.ledger hsub hdistinct hm
    rw [← hledger, List.map_take, ← statusOf_name s.committed.ledger m] at hstate
    exact hstate

private def firstRecorded : Session :=
  ⟨⟨true, true, [⟨"0001_table", "CREATE TABLE t"⟩], []⟩, ⟨true, true, [], []⟩, false, []⟩

private theorem buildStatus_firstRecorded :
    (buildStatus spelled asciiDecimal twoFiles (firstRecorded.begin undisturbed)).1 =
      some (.ok [⟨1, "0001_table", .applied, some "CREATE TABLE t"⟩, ⟨2, "0002_index", .pending, none⟩]) := by
  unfold buildStatus
  rw [discover_twoFiles]
  rfl

/-- With the first file recorded, the second one is shown as pending, and it is what a run applies. -/
theorem status_foretells_second :
    (attempt spelled asciiDecimal firstRecorded undisturbed).1 = .applied ["0002_index"] := by
  have hforetold := (status_foretells firstRecorded undisturbed undisturbed rfl rfl rfl Bool.noConfusion
    discover_twoFiles).2.2 _ buildStatus_firstRecorded
  obtain ⟨k, -, hcalm, -⟩ := hforetold.applied rfl
  exact (hcalm fun _ h => by cases h).1

end AgentOS.Migrations
