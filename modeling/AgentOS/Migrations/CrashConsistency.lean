import AgentOS.Migrations.Apply

/-!
# Crash consistency of migrations

Whatever fails in whatever run, the batches that are committed are those of the texts that are recorded, and the
recorded names are a beginning of the order of discovery (`Recorded`).

* `applyMigration_spec`: a migration is recorded with all its batches, or not at all.
* `applyLoop_spec`: a run records migrations one after the other, from the first one that is not recorded.
* `migrations_crash_consistent`: both hold behind every sequence of runs, and a later run that does not fail completes
  the work.
-/

namespace AgentOS.Migrations

variable {sha256 : List UInt8 → String} {decimal : Char → Option Nat}

/-- The tables hold the same rows and the same batches have been executed. -/
def SameRecords (db db' : Db) : Prop := db.ledger = db'.ledger ∧ db.effects = db'.effects

/-- No call fails. -/
def Session.Calm (s : Session) : Prop := ∀ o ∈ s.outcomes, o = .succeeds

/-- The rows are those of texts with names that are a beginning of the order, and the batches of these texts have been
executed. -/
def Recorded (sha256 : List UInt8 → String) (order : List String) (db : Db) : Prop :=
  ∃ pairs : List (String × String), pairs.map Prod.fst <+: order ∧
    db.ledger = pairs.map (fun pair => ⟨pair.1, computeChecksum sha256 pair.2⟩) ∧
    db.effects = pairs.flatMap fun pair => splitBatches pair.2

/-- The database with one migration more. -/
def Db.record (db : Db) (m : Migration) : Db :=
  { db with ledger := db.ledger ++ [⟨m.name, m.checksum⟩], effects := db.effects ++ splitBatches m.text }

variable {s : Session} {db : Db} {m : Migration} {ms : List Migration}

theorem SameRecords.trans {db₁ db₂ db₃ : Db} (h : SameRecords db₁ db₂) (h' : SameRecords db₂ db₃) :
    SameRecords db₁ db₃ :=
  ⟨h.1.trans h'.1, h.2.trans h'.2⟩

/-! ### Calls of the driver -/

theorem calm_advance (h : s.Calm) : s.outcome = .succeeds ∧ s.advance.Calm := by
  unfold Session.outcome Session.advance
  cases houtcomes : s.outcomes with
  | nil => exact ⟨rfl, fun _ h => by cases h⟩
  | cons o outcomes =>
    refine ⟨h o (houtcomes ▸ List.mem_cons_self), fun o' ho' => h o' ?_⟩
    rw [houtcomes]
    exact List.mem_cons_of_mem _ ho'

private theorem committed_write (f : Db → Db) (hmanual : s.autocommit = false) :
    (s.advance.write f).committed = s.committed := by
  show (if s.autocommit then f s.working else s.committed) = s.committed
  rw [hmanual]
  rfl

/-- Calls that turn what the transaction sees into `db`, or raise; nothing is committed. -/
private structure Does (s : Session) (db : Db) (r : Bool × Session) : Prop where
  manual : r.2.autocommit = false
  committed : r.2.committed = s.committed
  done : r.1 = true → r.2.working = db
  calm : s.Calm → r.1 = true ∧ r.2.Calm

private theorem does_execute (f : Db → Db) (hmanual : s.autocommit = false) :
    Does s (f s.working) (s.execute f) := by
  unfold Session.execute
  split
  · exact ⟨hmanual, committed_write f hmanual, fun _ => rfl, fun hcalm => ⟨rfl, (calm_advance hcalm).2⟩⟩
  case h_2 left houtcome =>
    refine ⟨hmanual, rfl, by simp, fun hcalm => ?_⟩
    cases houtcome.symm.trans (calm_advance hcalm).1
  case h_3 houtcome =>
    refine ⟨hmanual, committed_write f hmanual, by simp, fun hcalm => ?_⟩
    cases houtcome.symm.trans (calm_advance hcalm).1

private theorem does_executeBatch (batch : String) (hmanual : s.autocommit = false) :
    Does s { s.working with effects := s.working.effects ++ [batch] } (s.executeBatch batch) := by
  unfold Session.executeBatch
  split
  · exact ⟨hmanual, committed_write _ hmanual, fun _ => rfl, fun hcalm => ⟨rfl, (calm_advance hcalm).2⟩⟩
  case h_2 left houtcome =>
    refine ⟨hmanual, committed_write _ hmanual, by simp, fun hcalm => ?_⟩
    cases houtcome.symm.trans (calm_advance hcalm).1
  case h_3 houtcome =>
    refine ⟨hmanual, committed_write _ hmanual, by simp, fun hcalm => ?_⟩
    cases houtcome.symm.trans (calm_advance hcalm).1

private theorem Does.andThen {db' : Db} {r : Bool × Session} {f : Session → Bool × Session} (h : Does s db r)
    (hf : r.1 = true → Does r.2 db' (f r.2)) : Does s db' (andThen r f) := by
  unfold Migrations.andThen
  split
  case isTrue hnext =>
    have h' := hf hnext
    exact ⟨h'.manual, h'.committed.trans h.committed, h'.done, fun hcalm => h'.calm (h.calm hcalm).2⟩
  case isFalse hraised => exact ⟨h.manual, h.committed, fun hdone => absurd hdone hraised, h.calm⟩

/-- A commit is done or not, and raises if it is not. -/
theorem commit_spec (hmanual : s.autocommit = false) :
    s.commit.2.autocommit = false ∧ s.commit.2.working = s.working ∧
      (s.commit.2.committed = s.committed ∨ s.commit.2.committed = s.working) ∧
      (s.commit.1 = true → s.commit.2.committed = s.working) ∧ (s.Calm → s.commit.1 = true ∧ s.commit.2.Calm) := by
  unfold Session.commit
  split
  · exact ⟨hmanual, rfl, Or.inr rfl, fun _ => rfl, fun hcalm => ⟨rfl, (calm_advance hcalm).2⟩⟩
  case h_2 left houtcome =>
    refine ⟨hmanual, rfl, Or.inl rfl, by simp, fun hcalm => ?_⟩
    cases houtcome.symm.trans (calm_advance hcalm).1
  case h_3 houtcome =>
    refine ⟨hmanual, rfl, Or.inr rfl, by simp, fun hcalm => ?_⟩
    cases houtcome.symm.trans (calm_advance hcalm).1

/-! ### One migration -/

private theorem does_executeBatches (batches : List String) (hmanual : s.autocommit = false) :
    Does s { s.working with effects := s.working.effects ++ batches } (executeBatches batches s) := by
  induction batches generalizing s with
  | nil =>
    rw [List.append_nil]
    exact ⟨hmanual, rfl, fun _ => rfl, fun hcalm => ⟨rfl, hcalm⟩⟩
  | cons batch batches ih =>
    have hfirst := does_executeBatch batch hmanual
    refine hfirst.andThen fun hnext => ?_
    have hrest := ih hfirst.manual
    rw [hfirst.done hnext] at hrest
    dsimp only at hrest
    rw [List.append_assoc] at hrest
    exact hrest

/-- Where a run is between two migrations: the transaction is new, and nothing has failed if no call fails. -/
private structure Settled (s : Session) (db : Db) : Prop where
  manual : s.autocommit = false
  committed : s.committed = db
  working : s.working = db

/-- A migration is recorded with all its batches, or not at all. -/
private theorem applyMigration_spec (hm : m.noTransaction = false) (h : Settled s db) :
    (applyMigration m s).2.autocommit = false ∧
      ((applyMigration m s).2.committed = db ∨ (applyMigration m s).2.committed = db.record m) ∧
      ((applyMigration m s).2.working = db ∨ (applyMigration m s).2.working = db.record m) ∧
      ((applyMigration m s).1 = true → Settled (applyMigration m s).2 (db.record m)) ∧
      (s.Calm → (applyMigration m s).1 = true ∧ (applyMigration m s).2.Calm) := by
  have hbatches := does_executeBatches (splitBatches m.text) h.manual
  have hdoes : Does s (db.record m)
      (andThen (executeBatches (splitBatches m.text) s) fun s => s.execute (insertApplied m)) := by
    refine hbatches.andThen fun hnext => ?_
    have hrow := does_execute (insertApplied m) hbatches.manual
    rw [hbatches.done hnext, h.working] at hrow
    exact hrow
  unfold applyMigration
  rw [if_neg (by rw [hm]; exact Bool.false_ne_true)]
  unfold applyMigrationTransactional
  generalize andThen (executeBatches (splitBatches m.text) s) (fun s => s.execute (insertApplied m)) = r at hdoes
  have hstart := hdoes.committed.trans h.committed
  dsimp only
  split
  case isTrue hdone =>
    obtain ⟨hmanual, hworking, hcommitted, hsuccess, hcalm⟩ := commit_spec hdoes.manual
    rw [hdoes.done hdone] at hworking hcommitted hsuccess
    rw [hstart] at hcommitted
    exact ⟨hmanual, hcommitted, Or.inr hworking, fun h => ⟨hmanual, hsuccess h, hworking⟩,
      fun h => hcalm (hdoes.calm h).2⟩
  case isFalse hraised =>
    exact ⟨hdoes.manual, Or.inl hstart, Or.inl hstart, by simp, fun h => absurd (hdoes.calm h).1 hraised⟩

/-! ### The loop -/

/-- The database behind some of the migrations, from the first one on. -/
private def Reached (db : Db) (ms : List Migration) (db' : Db) : Prop :=
  ∃ j, j ≤ ms.length ∧ db' = (ms.take j).foldl Db.record db

private theorem Reached.start : Reached db ms db := ⟨0, Nat.zero_le _, by rw [List.take_zero]; rfl⟩

private theorem Reached.cons {db' : Db} (h : Reached (db.record m) ms db') : Reached db (m :: ms) db' := by
  obtain ⟨j, hj, rfl⟩ := h
  exact ⟨j + 1, Nat.succ_le_succ hj, rfl⟩

private theorem applyLoop_skip {applied : List LedgerRow} {skipped : List Migration} {now : List String}
    (h : ∀ m ∈ skipped, m.name ∈ applied.map LedgerRow.name) :
    applyLoop applied (skipped ++ ms) now s = applyLoop applied ms now s := by
  induction skipped with
  | nil => rfl
  | cons m skipped ih =>
    rw [List.cons_append, applyLoop, if_pos (h m List.mem_cons_self)]
    exact ih fun m' hm' => h m' (List.mem_cons_of_mem _ hm')

/-- A run records the migrations that are not recorded, one after the other. -/
private theorem applyLoop_spec {applied : List LedgerRow} (now : List String)
    (hms : ∀ m ∈ ms, m.name ∉ applied.map LedgerRow.name ∧ m.noTransaction = false) (h : Settled s db) :
    (applyLoop applied ms now s).2.autocommit = false ∧
      Reached db ms (applyLoop applied ms now s).2.committed ∧ Reached db ms (applyLoop applied ms now s).2.working ∧
      (s.Calm → (applyLoop applied ms now s).1 = some (now ++ ms.map Migration.name) ∧
        Settled (applyLoop applied ms now s).2 (ms.foldl Db.record db)) := by
  induction ms generalizing s db now with
  | nil =>
    refine ⟨h.manual, ?_, ?_, fun _ => ⟨?_, h⟩⟩
    · exact h.committed ▸ Reached.start
    · exact h.working ▸ Reached.start
    · rw [List.map_nil, List.append_nil]
      rfl
  | cons m ms ih =>
    obtain ⟨hfresh, hm⟩ := hms m List.mem_cons_self
    obtain ⟨hmanual, hcommitted, hworking, hnext, hcalm⟩ := applyMigration_spec hm h
    rw [applyLoop, if_neg hfresh]
    have hone : ∀ {db' : Db}, db' = db ∨ db' = db.record m → Reached db (m :: ms) db' := by
      rintro db' (rfl | rfl)
      · exact Reached.start
      · exact Reached.start.cons
    split
    case h_1 s' hs' =>
      rw [hs'] at hnext hcalm
      obtain ⟨hmanual', hcommitted', hworking', hcalm'⟩ :=
        ih (now ++ [m.name]) (fun m' hm' => hms m' (List.mem_cons_of_mem _ hm')) (hnext rfl)
      refine ⟨hmanual', hcommitted'.cons, hworking'.cons, fun hs => ?_⟩
      rw [List.append_assoc] at hcalm'
      exact hcalm' (hcalm hs).2
    case h_2 s' hs' =>
      rw [hs'] at hmanual hcommitted hworking hcalm
      exact ⟨hmanual, hone hcommitted, hone hworking, fun hs => absurd (hcalm hs).1 Bool.false_ne_true⟩

/-! ### The start of a run -/

/-- Calls that leave the rows and the effects as they are. -/
private structure Prepares (s : Session) (r : Bool × Session) : Prop where
  manual : r.2.autocommit = false
  committed : r.2.committed = s.committed
  working : SameRecords r.2.working s.working
  calm : s.Calm → r.1 = true ∧ r.2.Calm

/-- What `ensure_bootstrap` leaves, or a part of it that ends with the commit. -/
private structure Booted (s : Session) (r : Bool × Session) : Prop where
  manual : r.2.autocommit = false
  working : SameRecords r.2.working s.working
  committed : SameRecords r.2.committed s.committed ∨ SameRecords r.2.committed s.working
  settled : r.1 = true → ∃ db, Settled r.2 db ∧ db.table = true ∧ SameRecords db s.working
  calm : s.Calm → r.1 = true ∧ r.2.Calm

private theorem prepares_execute {f : Db → Db} (hf : ∀ db, SameRecords (f db) db) (hmanual : s.autocommit = false) :
    Prepares s (s.execute f) := by
  unfold Session.execute
  split
  · exact ⟨hmanual, committed_write f hmanual, hf _, fun hcalm => ⟨rfl, (calm_advance hcalm).2⟩⟩
  case h_2 left houtcome =>
    refine ⟨hmanual, rfl, ⟨rfl, rfl⟩, fun hcalm => ?_⟩
    cases houtcome.symm.trans (calm_advance hcalm).1
  case h_3 houtcome =>
    refine ⟨hmanual, committed_write f hmanual, hf _, fun hcalm => ?_⟩
    cases houtcome.symm.trans (calm_advance hcalm).1

private theorem prepares_unless {f : Db → Db} (there : Bool) (hf : ∀ db, SameRecords (f db) db)
    (hmanual : s.autocommit = false) : Prepares s (if there then (true, s) else s.execute f) := by
  cases there
  · exact prepares_execute hf hmanual
  · exact ⟨hmanual, rfl, ⟨rfl, rfl⟩, fun hcalm => ⟨rfl, hcalm⟩⟩

private theorem Prepares.booted {r : Bool × Session} {f : Session → Bool × Session} (h : Prepares s r)
    (hf : ∀ s', r = (true, s') → s'.autocommit = false → Booted s' (f s')) : Booted s (andThen r f) := by
  unfold andThen
  split
  case isTrue hnext =>
    have h' := hf r.2 (Prod.ext hnext rfl) h.manual
    refine ⟨h'.manual, h'.working.trans h.working, ?_, fun hdone => ?_, fun hcalm => h'.calm (h.calm hcalm).2⟩
    · rw [← h.committed]
      exact h'.committed.imp_right fun hworking => hworking.trans h.working
    · obtain ⟨db, hsettled, htable, hsame⟩ := h'.settled hdone
      exact ⟨db, hsettled, htable, hsame.trans h.working⟩
  case isFalse hraised =>
    refine ⟨h.manual, h.working, Or.inl ?_, fun hdone => absurd hdone hraised, h.calm⟩
    rw [h.committed]
    exact ⟨rfl, rfl⟩

private theorem booted_commit (hmanual : s.autocommit = false) (htable : s.working.table = true) :
    Booted s s.commit := by
  obtain ⟨hmanual', hworking, hcommitted, hsuccess, hcalm⟩ := commit_spec hmanual
  refine ⟨hmanual', ?_, ?_, fun hdone => ⟨s.working, ⟨hmanual', hsuccess hdone, hworking⟩, htable, ⟨rfl, rfl⟩⟩, hcalm⟩
  · rw [hworking]
    exact ⟨rfl, rfl⟩
  · rcases hcommitted with h | h
    · rw [h]
      exact Or.inl ⟨rfl, rfl⟩
    · rw [h]
      exact Or.inr ⟨rfl, rfl⟩

private theorem booted_ensureBootstrap (hmanual : s.autocommit = false) : Booted s (ensureBootstrap s) := by
  have hid : ∀ db, SameRecords (id db) db := fun _ => ⟨rfl, rfl⟩
  refine (prepares_execute hid hmanual).booted fun s₁ _ h₁ => ?_
  have hschema := prepares_unless (f := fun db => { db with schema := true }) s₁.working.schema (fun _ => ⟨rfl, rfl⟩) h₁
  refine hschema.booted fun s₂ _ h₂ => ?_
  refine (prepares_execute hid h₂).booted fun s₃ _ h₃ => ?_
  have hcreated := prepares_unless (f := fun db => { db with table := true }) s₃.working.table (fun _ => ⟨rfl, rfl⟩) h₃
  refine hcreated.booted fun s₄ htable h₄ => ?_
  refine booted_commit h₄ ?_
  split at htable
  case isTrue hthere =>
    obtain rfl := (Prod.mk.inj htable).2
    exact hthere
  case isFalse =>
    have hcreate := (does_execute (fun db => { db with table := true }) h₃).done
    rw [htable] at hcreate
    rw [hcreate rfl]

private theorem getApplied_spec (h : Settled s db) (htable : db.table = true) :
    Settled (getApplied s).2 db ∧ (∀ applied, (getApplied s).1 = some applied → applied = db.ledger) ∧
      (s.Calm → (getApplied s).1 = some db.ledger ∧ (getApplied s).2.Calm) := by
  have hread : ∀ {s : Session}, Settled s db → Settled (s.execute id).2 db := by
    intro s hs
    have hdoes := does_execute id hs.manual
    have hworking : (s.execute id).2.working = s.working := by
      unfold Session.execute
      split
      · rfl
      · rfl
      · rfl
    exact ⟨hdoes.manual, hdoes.committed.trans hs.committed, hworking.trans hs.working⟩
  have hfirst := hread h
  have hsecond := hread hfirst
  have hcalm := (does_execute id h.manual).calm
  have hcalm₂ := (does_execute id hfirst.manual).calm
  unfold getApplied
  split
  case h_1 s' hs' =>
    rw [hs'] at hfirst hcalm
    exact ⟨hfirst, by simp, fun hs => absurd (hcalm hs).1 Bool.false_ne_true⟩
  case h_2 s' hs' =>
    rw [hs'] at hfirst hsecond hcalm hcalm₂
    dsimp only at hfirst hsecond hcalm₂
    rw [if_pos (by rw [hfirst.working]; exact htable)]
    split
    case h_1 s'' hs'' =>
      rw [hs''] at hsecond hcalm₂
      exact ⟨hsecond, by simp, fun hs => absurd (hcalm₂ (hcalm hs).2).1 Bool.false_ne_true⟩
    case h_2 s'' hs'' =>
      rw [hs''] at hsecond hcalm₂
      dsimp only at hsecond
      rw [hsecond.working]
      exact ⟨hsecond, fun applied h => (Option.some.inj h).symm, fun hs => ⟨rfl, (hcalm₂ (hcalm hs).2).2⟩⟩

/-! ### What is recorded -/

variable {order : List String}

private theorem Recorded.congr {db' : Db} (h : Recorded sha256 order db) (hsame : SameRecords db' db) :
    Recorded sha256 order db' := by
  obtain ⟨pairs, hnames, hledger, heffects⟩ := h
  exact ⟨pairs, hnames, hsame.1.trans hledger, hsame.2.trans heffects⟩

private theorem Recorded.names (h : Recorded sha256 order db) : db.ledger.map LedgerRow.name <+: order := by
  obtain ⟨pairs, hnames, hledger, -⟩ := h
  rw [hledger, List.map_map]
  exact hnames

theorem ledger_foldl (ms : List Migration) (db : Db) :
    (ms.foldl Db.record db).ledger = db.ledger ++ ms.map fun m => ⟨m.name, m.checksum⟩ := by
  rw [List.map_eq_flatMap]
  exact Fold.foldl_append Db.ledger _ (fun _ _ => rfl) ms db

theorem effects_foldl (ms : List Migration) (db : Db) :
    (ms.foldl Db.record db).effects = db.effects ++ ms.flatMap fun m => splitBatches m.text :=
  Fold.foldl_append Db.effects _ (fun _ _ => rfl) ms db

/-- Migrations that are the next of the order. -/
private theorem Recorded.foldl (h : Recorded sha256 order db)
    (hnext : db.ledger.map LedgerRow.name ++ ms.map Migration.name <+: order)
    (hms : ∀ m ∈ ms, m.checksum = computeChecksum sha256 m.text) : Recorded sha256 order (ms.foldl Db.record db) := by
  obtain ⟨pairs, -, hledger, heffects⟩ := h
  refine ⟨pairs ++ ms.map fun m => (m.name, m.text), ?_, ?_, ?_⟩
  · rw [hledger, List.map_map] at hnext
    rw [List.map_append, List.map_map]
    exact hnext
  · rw [ledger_foldl, hledger, List.map_append, List.map_map]
    refine congrArg _ (List.map_congr_left fun m hm => ?_)
    rw [hms m hm]
    rfl
  · rw [effects_foldl, heffects, List.flatMap_append, List.flatMap_map]

private theorem Recorded.reached {db' : Db} (h : Recorded sha256 order db)
    (hnext : db.ledger.map LedgerRow.name ++ ms.map Migration.name <+: order)
    (hms : ∀ m ∈ ms, m.checksum = computeChecksum sha256 m.text) (hreached : Reached db ms db') :
    Recorded sha256 order db' := by
  obtain ⟨j, -, rfl⟩ := hreached
  refine h.foldl (List.IsPrefix.trans ?_ hnext) fun m hm => hms m (List.mem_of_mem_take hm)
  rw [List.prefix_append_right_inj]
  exact (List.take_prefix j ms).map _

/-! ### A run -/

variable {files : List MigrationFile} {migrations : List Migration}

/-- What is known of the directory in a run: its migrations are those of the order, and all of them transactional. -/
private structure Listed (sha256 : List UInt8 → String) (order : List String) (migrations : List Migration) : Prop where
  names : migrations.map Migration.name = order
  distinct : (migrations.map Migration.name).Nodup
  checksum : ∀ m ∈ migrations, m.checksum = computeChecksum sha256 m.text
  transactional : ∀ m ∈ migrations, m.noTransaction = false

private theorem listed_discoverMigrations (hfiles : ∀ file ∈ files, parsesNoTransactionDirective file.text = false)
    (h : discoverMigrations sha256 decimal files = .ok migrations) :
    Listed sha256 (discoveryOrder sha256 decimal files) migrations := by
  obtain ⟨hnames, hdistinct, htexts⟩ := of_discoverMigrations h
  refine ⟨hnames, hdistinct, fun m hm => ?_, fun m hm => ?_⟩
  · obtain ⟨file, -, htext, hchecksum, -⟩ := htexts m hm
    rw [hchecksum, htext]
  · obtain ⟨file, hfile, -, -, hdirective⟩ := htexts m hm
    rw [hdirective, hfiles file hfile]

/-- The migrations that are recorded are the first ones, and the loop skips just these. -/
private theorem Listed.split (h : Listed sha256 order migrations) (hrecorded : Recorded sha256 order db) :
    (∀ m ∈ migrations.take db.ledger.length, m.name ∈ db.ledger.map LedgerRow.name) ∧
      (∀ m ∈ migrations.drop db.ledger.length, m.name ∉ db.ledger.map LedgerRow.name) ∧
      db.ledger.map LedgerRow.name ++ (migrations.drop db.ledger.length).map Migration.name = order := by
  have hprefix := hrecorded.names
  have htake : db.ledger.map LedgerRow.name = (migrations.take db.ledger.length).map Migration.name := by
    rw [List.map_take, h.names]
    have := List.prefix_iff_eq_take.1 hprefix
    rw [List.length_map] at this
    exact this
  have hsplit : migrations.map Migration.name = (migrations.take db.ledger.length).map Migration.name ++
      (migrations.drop db.ledger.length).map Migration.name := by
    rw [← List.map_append, List.take_append_drop]
  refine ⟨fun m hm => ?_, fun m hm hmem => ?_, ?_⟩
  · rw [htake]
    exact List.mem_map_of_mem hm
  · have hdistinct := h.distinct
    rw [hsplit] at hdistinct
    rw [htake] at hmem
    exact (List.nodup_append.1 hdistinct).2.2 _ hmem _ (List.mem_map_of_mem hm) rfl
  · rw [htake, ← hsplit, h.names]

/-- A migration of the directory is recorded with another checksum. -/
def Mismatched (migrations : List Migration) (db : Db) : Prop :=
  ∃ m ∈ migrations, ∃ row ∈ db.ledger, row.name = m.name ∧ row.checksum ≠ m.checksum

private theorem isMismatch_iff (hdistinct : (db.ledger.map LedgerRow.name).Nodup) :
    isMismatch db.ledger m = true ↔ ∃ row ∈ db.ledger, row.name = m.name ∧ row.checksum ≠ m.checksum := by
  unfold isMismatch
  rw [Option.any_eq_true]
  constructor
  · rintro ⟨row, hrow, hchecksum⟩
    exact ⟨row, List.mem_reverse.1 (List.mem_of_find?_eq_some hrow), by simpa using List.find?_some hrow,
      by simpa using hchecksum⟩
  · rintro ⟨row, hrow, hname, hchecksum⟩
    have hsome : (db.ledger.reverse.find? fun r => r.name = m.name).isSome := by
      rw [List.find?_isSome]
      exact ⟨row, List.mem_reverse.2 hrow, by simpa using hname⟩
    obtain ⟨found, hfound⟩ := Option.isSome_iff_exists.1 hsome
    have hsame : found.name = m.name := by simpa using List.find?_some hfound
    have hmem := List.mem_reverse.1 (List.mem_of_find?_eq_some hfound)
    obtain rfl := List.inj_on_of_nodup_map hdistinct hmem hrow (hsame.trans hname.symm)
    exact ⟨found, hfound, by simpa using hchecksum⟩

private theorem mismatches_eq_nil_iff (hdistinct : (db.ledger.map LedgerRow.name).Nodup) :
    (migrations.filter (isMismatch db.ledger)).map Migration.name = [] ↔ ¬ Mismatched migrations db := by
  rw [List.map_eq_nil_iff, List.filter_eq_nil_iff]
  constructor
  · rintro h ⟨m, hm, hrow⟩
    exact h m hm ((isMismatch_iff hdistinct).2 hrow)
  · intro h m hm hmismatch
    exact h ⟨m, hm, (isMismatch_iff hdistinct).1 hmismatch⟩

/-- What a run does, in terms of what its connection sees at the start. -/
private structure Ran (sha256 : List UInt8 → String) (order : List String) (migrations : List Migration) (s : Session)
    (r : Result × Session) : Prop where
  committed : Recorded sha256 order r.2.committed
  working : Recorded sha256 order r.2.working
  refused : Mismatched migrations s.working → SameRecords r.2.working s.working ∧
    (SameRecords r.2.committed s.committed ∨ SameRecords r.2.committed s.working) ∧
    (s.Calm → ∃ names, r.1 = .checksumMismatch names)
  completed : ¬ Mismatched migrations s.working → s.Calm →
    r.1 = .applied ((migrations.drop s.working.ledger.length).map Migration.name) ∧
      SameRecords r.2.committed ((migrations.drop s.working.ledger.length).foldl Db.record s.working)

private theorem sameRecords_foldl {db' : Db} (h : SameRecords db db') :
    SameRecords (ms.foldl Db.record db) (ms.foldl Db.record db') := by
  refine ⟨?_, ?_⟩
  · rw [ledger_foldl, ledger_foldl, h.1]
  · rw [effects_foldl, effects_foldl, h.2]

private theorem recorded_ensureBootstrap (hmanual : s.autocommit = false)
    (hcommitted : Recorded sha256 order s.committed)
    (hworking : Recorded sha256 order s.working) : Recorded sha256 order (ensureBootstrap s).2.committed ∧
      Recorded sha256 order (ensureBootstrap s).2.working := by
  have hboot := booted_ensureBootstrap hmanual
  exact ⟨hboot.committed.elim hcommitted.congr hworking.congr, hworking.congr hboot.working⟩

private theorem ran_applyPending (hmanual : s.autocommit = false) (hcommitted : Recorded sha256 order s.committed)
    (hworking : Recorded sha256 order s.working) (hdiscover : discoverMigrations sha256 decimal files = .ok migrations)
    (hlisted : Listed sha256 order migrations) :
        Ran sha256 order migrations s (applyPending sha256 decimal files s) := by
  have hboot := booted_ensureBootstrap hmanual
  obtain ⟨hcommitted₁, hworking₁⟩ := recorded_ensureBootstrap hmanual hcommitted hworking
  unfold applyPending
  rw [hdiscover]
  split
  case h_1 s₁ hs₁ =>
    -- the bootstrap raises
    rw [hs₁] at hboot hcommitted₁ hworking₁
    exact ⟨hcommitted₁, hworking₁,
      fun _ => ⟨hboot.working, hboot.committed, fun hcalm => absurd (hboot.calm hcalm).1 Bool.false_ne_true⟩,
      fun _ hcalm => absurd (hboot.calm hcalm).1 Bool.false_ne_true⟩
  case h_2 s₁ hs₁ =>
    rw [hs₁] at hboot
    obtain ⟨db, hsettled, htable, hsame⟩ := hboot.settled rfl
    obtain ⟨hread, happlied, hcalm⟩ := getApplied_spec hsettled htable
    have hdb := hworking.congr hsame
    have hstart : ∀ {s' : Session}, Settled s' db → SameRecords s'.committed s.working ∧
        SameRecords s'.working s.working := by
      intro s' hs'
      rw [hs'.committed, hs'.working]
      exact ⟨hsame, hsame⟩
    dsimp only
    split
    case h_1 s₂ hs₂ =>
      -- `get_applied` raises
      rw [hs₂] at hread hcalm
      obtain ⟨hc, hw⟩ := hstart hread
      exact ⟨hdb.congr (hread.committed ▸ ⟨rfl, rfl⟩), hdb.congr (hread.working ▸ ⟨rfl, rfl⟩),
        fun _ => ⟨hw, Or.inr hc, fun h => absurd (hcalm (hboot.calm h).2).1 (by simp)⟩,
        fun _ h => absurd (hcalm (hboot.calm h).2).1 (by simp)⟩
    case h_2 applied s₂ hs₂ =>
      rw [hs₂] at hread happlied hcalm
      obtain rfl := happlied applied rfl
      obtain ⟨hc, hw⟩ := hstart hread
      have hdistinct : (db.ledger.map LedgerRow.name).Nodup :=
        (hlisted.names ▸ hlisted.distinct).sublist hdb.names.sublist
      have hmismatch : (migrations.filter (isMismatch db.ledger)).map Migration.name = [] ↔
          ¬ Mismatched migrations db := mismatches_eq_nil_iff hdistinct
      have hsee : Mismatched migrations s.working ↔ Mismatched migrations db := by
        unfold Mismatched
        rw [hsame.1]
      split
      case isTrue hnames =>
        have hfound := not_not.1 (mt hmismatch.2 hnames)
        exact ⟨hdb.congr (hread.committed ▸ ⟨rfl, rfl⟩), hdb.congr (hread.working ▸ ⟨rfl, rfl⟩),
          fun _ => ⟨hw, Or.inr hc, fun _ => ⟨_, rfl⟩⟩, fun hno => absurd (hsee.2 hfound) hno⟩
      case isFalse hnames =>
        have hnone := hmismatch.1 (not_not.1 hnames)
        obtain ⟨hskipped, hfresh, hnext⟩ := hlisted.split hdb
        have hloop : applyLoop db.ledger migrations [] s₂ =
            applyLoop db.ledger (migrations.drop db.ledger.length) [] s₂ := by
          conv_lhs => rw [← List.take_append_drop db.ledger.length migrations]
          exact applyLoop_skip hskipped
        have hrest := fun m (hm : m ∈ migrations.drop db.ledger.length) => List.mem_of_mem_drop hm
        obtain ⟨-, hcommitted₂, hworking₂, hdone⟩ := applyLoop_spec []
          (fun m hm => ⟨hfresh m hm, hlisted.transactional m (hrest m hm)⟩) hread
        have hrecorded : ∀ {db' : Db}, Reached db (migrations.drop db.ledger.length) db' → Recorded sha256 order db' :=
          fun hreached => hdb.reached (hnext ▸ List.prefix_refl _) (fun m hm => hlisted.checksum m (hrest m hm)) hreached
        have hno : Mismatched migrations s.working → False := fun hfound => hnone (hsee.1 hfound)
        have hlength : s.working.ledger.length = db.ledger.length := by rw [hsame.1]
        rw [hloop]
        split
        case h_1 s₃ hs₃ =>
          -- a migration raises
          rw [hs₃] at hcommitted₂ hworking₂ hdone
          exact ⟨hrecorded hcommitted₂, hrecorded hworking₂, fun hfound => absurd hfound hno,
            fun _ h => absurd (hdone (hcalm (hboot.calm h).2).2).1 (by simp)⟩
        case h_2 names s₃ hs₃ =>
          rw [hs₃] at hcommitted₂ hworking₂ hdone
          refine ⟨hrecorded hcommitted₂, hrecorded hworking₂, fun hfound => absurd hfound hno, fun _ h => ?_⟩
          obtain ⟨hnow, hend⟩ := hdone (hcalm (hboot.calm h).2).2
          obtain rfl := Option.some.inj hnow
          refine ⟨by rw [hlength]; rfl, ?_⟩
          show SameRecords s₃.committed _
          rw [hend.committed, hlength]
          exact sameRecords_foldl hsame

/-! ### Runs -/

variable {dir : List MigrationFile} {a : Attempt}

/-- A run on the directory with files of the same names, all of them transactional. -/
structure Attempt.On (dir : List MigrationFile) (a : Attempt) : Prop where
  names : (a.files.map MigrationFile.fileName).Perm (dir.map MigrationFile.fileName)
  transactional : ∀ file ∈ a.files, parsesNoTransactionDirective file.text = false

private theorem listed_of_on (h : a.On dir) (hdiscover : discoverMigrations sha256 decimal a.files = .ok migrations) :
    Listed sha256 (discoveryOrder sha256 decimal dir) migrations := by
  have hlisted := listed_discoverMigrations h.transactional hdiscover
  rw [discoveryOrder_congr sha256 decimal h.names] at hlisted
  exact hlisted

/-- Whether the connection is new or not, a run sees what is recorded. -/
private theorem recorded_begin (a : Attempt)
    (hs : Recorded sha256 order s.committed ∧ Recorded sha256 order s.working) :
    Recorded sha256 order (s.begin a).working := by
  show Recorded sha256 order (if a.reconnects then s.committed else s.working)
  split
  · exact hs.1
  · exact hs.2

private theorem recorded_attempt (h : a.On dir)
    (hs : Recorded sha256 (discoveryOrder sha256 decimal dir) s.committed ∧
      Recorded sha256 (discoveryOrder sha256 decimal dir) s.working) :
    Recorded sha256 (discoveryOrder sha256 decimal dir) (attempt sha256 decimal s a).2.committed ∧
      Recorded sha256 (discoveryOrder sha256 decimal dir) (attempt sha256 decimal s a).2.working := by
  have hworking := recorded_begin a hs
  cases hdiscover : discoverMigrations sha256 decimal a.files with
  | ok migrations =>
    have hran := ran_applyPending (s := s.begin a) rfl hs.1 hworking hdiscover (listed_of_on h hdiscover)
    exact ⟨hran.committed, hran.working⟩
  | error error =>
    obtain ⟨hcommitted₁, hworking₁⟩ := recorded_ensureBootstrap (s := s.begin a) rfl hs.1 hworking
    unfold attempt applyPending
    rw [hdiscover]
    split
    case h_1 s₁ hs₁ =>
      rw [hs₁] at hcommitted₁ hworking₁
      exact ⟨hcommitted₁, hworking₁⟩
    case h_2 s₁ hs₁ =>
      rw [hs₁] at hcommitted₁ hworking₁
      exact ⟨hcommitted₁, hworking₁⟩

private theorem recorded_afterAttempts (sha256 : List UInt8 → String) (decimal : Char → Option Nat)
    {attempts : List Attempt} (hattempts : ∀ a ∈ attempts, a.On dir) :
    Recorded sha256 (discoveryOrder sha256 decimal dir) (afterAttempts sha256 decimal attempts).committed ∧
      Recorded sha256 (discoveryOrder sha256 decimal dir) (afterAttempts sha256 decimal attempts).working := by
  have hempty : Recorded sha256 (discoveryOrder sha256 decimal dir) Db.empty := ⟨[], List.nil_prefix, rfl, rfl⟩
  exact Fold.preserves (I := fun s : Session => Recorded sha256 (discoveryOrder sha256 decimal dir) s.committed ∧
    Recorded sha256 (discoveryOrder sha256 decimal dir) s.working) ⟨hempty, hempty⟩
    fun a ha s hs => recorded_attempt (hattempts a ha) hs

private theorem computeChecksum_injective (hsha : Function.Injective sha256) :
    Function.Injective (computeChecksum sha256) := by
  intro text text' h
  rw [← decode_encode text, hsha h, decode_encode]

/-- The effects are the batches of the texts that are recorded, each executed once, and the recorded names are a
beginning of the order. -/
structure Consistent (sha256 : List UInt8 → String) (order : List String) (db : Db) : Prop where
  texts : ∃ texts : List String, db.ledger.map LedgerRow.checksum = texts.map (computeChecksum sha256)
  effects : ∀ texts : List String, db.ledger.map LedgerRow.checksum = texts.map (computeChecksum sha256) →
    db.effects = texts.flatMap splitBatches
  names : db.ledger.map LedgerRow.name <+: order

/-- A run that finds a recorded migration with another checksum applies nothing; one that finds none and in which no
call fails applies the rest in order. -/
structure Resumes (sha256 : List UInt8 → String) (order : List String) (migrations : List Migration) (s : Session)
    (r : Result × Session) : Prop where
  refuses : Mismatched migrations s.working → SameRecords r.2.working s.working ∧
    (SameRecords r.2.committed s.committed ∨ SameRecords r.2.committed s.working) ∧
    (s.Calm → ∃ names, r.1 = .checksumMismatch names)
  completes : ¬ Mismatched migrations s.working → s.Calm → ∃ rest : List Migration,
    s.working.ledger.map LedgerRow.name ++ rest.map Migration.name = order ∧ (∀ m ∈ rest, m ∈ migrations) ∧
    r.1 = .applied (rest.map Migration.name) ∧
    r.2.committed.ledger = s.working.ledger ++ rest.map (fun m => ⟨m.name, computeChecksum sha256 m.text⟩) ∧
    r.2.committed.effects = s.working.effects ++ rest.flatMap fun m => splitBatches m.text

private theorem Recorded.consistent (hsha : Function.Injective sha256) (h : Recorded sha256 order db) :
    Consistent sha256 order db := by
  have hprefix := h.names
  obtain ⟨pairs, -, hledger, heffects⟩ := h
  have hchecksums : db.ledger.map LedgerRow.checksum = (pairs.map Prod.snd).map (computeChecksum sha256) := by
    rw [hledger, List.map_map, List.map_map]
    rfl
  refine ⟨⟨_, hchecksums⟩, fun texts htexts => ?_, hprefix⟩
  rw [(computeChecksum_injective hsha).list_map (htexts.symm.trans hchecksums), heffects, List.flatMap_map]

private theorem Ran.resumes {r : Result × Session} (h : Ran sha256 order migrations s r)
    (hlisted : Listed sha256 order migrations) (hworking : Recorded sha256 order s.working) :
    Resumes sha256 order migrations s r := by
  refine ⟨h.refused, fun hnone hcalm => ?_⟩
  obtain ⟨hresult, hledger, heffects⟩ := h.completed hnone hcalm
  have hrest := fun m (hm : m ∈ migrations.drop s.working.ledger.length) => List.mem_of_mem_drop hm
  refine ⟨_, (hlisted.split hworking).2.2, hrest, hresult, ?_, ?_⟩
  · rw [hledger, ledger_foldl]
    refine congrArg _ (List.map_congr_left fun m hm => ?_)
    rw [hlisted.checksum m (hrest m hm)]
  · rw [heffects, effects_foldl]

/-- **Crash consistency.**  Behind every sequence of runs, whatever has failed in them, the effects that are committed
are the batches of the texts that are recorded, and the recorded names are a beginning of the order of discovery; and a
later run takes up where they ended. -/
theorem migrations_crash_consistent (hsha : Function.Injective sha256) (attempts : List Attempt)
    (hattempts : ∀ a ∈ attempts, a.On dir) :
    Consistent sha256 (discoveryOrder sha256 decimal dir) (afterAttempts sha256 decimal attempts).committed ∧
      ∀ (a : Attempt) migrations, a.On dir → discoverMigrations sha256 decimal a.files = .ok migrations →
        Resumes sha256 (discoveryOrder sha256 decimal dir) migrations
          ((afterAttempts sha256 decimal attempts).begin a)
          (attempt sha256 decimal (afterAttempts sha256 decimal attempts) a) := by
  obtain ⟨hcommitted, hworking⟩ := recorded_afterAttempts sha256 decimal hattempts
  refine ⟨hcommitted.consistent hsha, fun a migrations hon hdiscover => ?_⟩
  have hlisted := listed_of_on hon hdiscover
  have hbegin := recorded_begin a ⟨hcommitted, hworking⟩
  have hran := ran_applyPending (s := (afterAttempts sha256 decimal attempts).begin a) rfl hcommitted hbegin hdiscover
    hlisted
  exact hran.resumes hlisted hbegin

/-! ### A run that a failing batch ends -/

def spelled (bytes : List UInt8) : String := String.ofList (bytes.map fun b => Char.ofNat b.toNat)

def asciiDecimal (c : Char) : Option Nat := if c.isDigit then some (c.toNat - '0'.toNat) else none

def twoFiles : List MigrationFile :=
  [⟨"0001_table.sql", "CREATE TABLE t"⟩, ⟨"0002_index.sql", "CREATE INDEX i\nGO\nCREATE INDEX j"⟩]

private def cutShort : Attempt := ⟨twoFiles, List.replicate 11 .succeeds ++ [.fails []], true⟩

def undisturbed : Attempt := ⟨twoFiles, [], true⟩

private theorem spelled_injective : Function.Injective spelled := by
  intro bytes bytes' h
  refine List.map_injective_iff.2 (fun b b' hb => ?_) (String.ofList_injective h)
  have hnat := congrArg Char.toNat hb
  have hvalid : ∀ n < 256, (Char.ofNat n).toNat = n := by decide +kernel
  rw [hvalid _ b.toNat_lt, hvalid _ b'.toNat_lt] at hnat
  exact UInt8.toNat_inj.1 hnat

def twoMigrations : List Migration :=
  [⟨1, "0001_table", "CREATE TABLE t", "CREATE TABLE t", false⟩,
    ⟨2, "0002_index", "CREATE INDEX i\nGO\nCREATE INDEX j", "CREATE INDEX i\nGO\nCREATE INDEX j", false⟩]

theorem discover_twoFiles : discoverMigrations spelled asciiDecimal twoFiles = .ok twoMigrations := by
  have hloop : twoFiles.foldlM (discoverNext spelled asciiDecimal) [] = .ok twoMigrations := rfl
  unfold discoverMigrations
  rw [List.mergeSort_of_pairwise (by decide), hloop]
  exact congrArg Except.ok (List.mergeSort_of_pairwise (by decide))

private theorem afterAttempts_cutShort : (afterAttempts spelled asciiDecimal [cutShort]).committed =
    ⟨true, true, [⟨"0001_table", "CREATE TABLE t"⟩], ["CREATE TABLE t"]⟩ := by
  show (applyPending spelled asciiDecimal twoFiles _).2.committed = _
  unfold applyPending
  rw [discover_twoFiles]
  decide +kernel

private theorem on_twoFiles {a : Attempt} (h : a.files = twoFiles) : a.On twoFiles :=
  ⟨h ▸ List.Perm.refl _, h ▸ by decide +kernel⟩

private theorem discoveryOrder_twoFiles :
    discoveryOrder spelled asciiDecimal twoFiles = ["0001_table", "0002_index"] := by
  unfold discoveryOrder
  rw [discover_twoFiles]
  rfl

/-- The second batch of the second file fails: what the first file does is committed, and the next run applies the
second file. -/
theorem crash_consistent_cutShort :
    (afterAttempts spelled asciiDecimal [cutShort]).committed.effects = ["CREATE TABLE t"] ∧
      (attempt spelled asciiDecimal (afterAttempts spelled asciiDecimal [cutShort]) undisturbed).1 =
        .applied ["0002_index"] := by
  have hconsistent : Consistent spelled (discoveryOrder spelled asciiDecimal twoFiles) _ ∧ _ :=
    migrations_crash_consistent spelled_injective [cutShort] fun a ha => on_twoFiles (List.mem_singleton.1 ha ▸ rfl)
  refine ⟨hconsistent.1.effects ["CREATE TABLE t"] (by rw [afterAttempts_cutShort]; rfl), ?_⟩
  have hresumes := hconsistent.2 undisturbed _ (on_twoFiles rfl) discover_twoFiles
  have hworking : ((afterAttempts spelled asciiDecimal [cutShort]).begin undisturbed).working =
      ⟨true, true, [⟨"0001_table", "CREATE TABLE t"⟩], ["CREATE TABLE t"]⟩ := afterAttempts_cutShort
  have hmatch :
      ¬ Mismatched twoMigrations ((afterAttempts spelled asciiDecimal [cutShort]).begin undisturbed).working := by
    rw [hworking]
    rintro ⟨m, hm, row, hrow, hname, hchecksum⟩
    obtain rfl := List.mem_singleton.1 hrow
    rcases List.mem_pair.1 hm with rfl | rfl
    · exact hchecksum rfl
    · exact absurd hname (by decide)
  obtain ⟨rest, horder, -, hresult, -⟩ := hresumes.completes hmatch fun _ h => by cases h
  rw [hworking, discoveryOrder_twoFiles] at horder
  have hrest : rest.map Migration.name = ["0002_index"] := (List.cons.inj horder).2
  rw [hresult, hrest]

end AgentOS.Migrations
