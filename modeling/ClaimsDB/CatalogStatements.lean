/-
Concurrent `CREATE TABLE` and `DROP TABLE` statements.

The catalogue has no lock but that of the id cursor.  A step of a statement is one call of the
catalogue at first; then `add_table` and `Catalog::DropTable` are taken apart into the accesses of
the two maps.  `DropTableExec::DropTable` ends without a `return`: what the caller reads is given with the step.
No step follows where a null pointer would be followed.

* **`statementStep_invariant`** — what one call of a statement preserves;
* **`Simulates.step`** — calls that nothing comes into are single steps;
* **`catalogue_identity`** — the maps, the ids and the reports of success over every run;
* **`id_above_cursor`** — two statements that create a table of one name.
-/
import ClaimsDB.Catalog
import ClaimsDB.Runs

namespace TableCatalog

open Option List
open Function (update)

/-! ### Statements -/

/-- What a `CREATE TABLE` statement says; `supported` is whether all its column types are. -/
structure CreateTable where
  tableName : Name
  additionalName : Name
  columns : List Name
  supported : Bool

def CreateTable.name (stmt : CreateTable) : Name :=
  if stmt.additionalName = [] then stmt.tableName else stmt.additionalName

def rowId : Name := ['r', 'o', 'w', '_', 'i', 'd']

/-- The shadow table, then the base table; if the first call fails, both again. -/
inductive DropCall
  | delTable
  | baseTable
  | delTableAgain
  | baseTableAgain

def DropCall.target : DropCall → Name → Name
  | .delTable, name | .delTableAgain, name => name ++ delSuffix
  | .baseTable, name | .baseTableAgain, name => name

inductive Statement
  | idle
  | analyseCreate (stmt : CreateTable)
  | newTable (stmt : CreateTable)
  | newDelTable (stmt : CreateTable) (base : ℕ)
  | addTable (base del : ℕ)
  | addDelTable (del : ℕ) (baseAdded : Bool)
  /-- success is reported, whatever the two calls of `add_table` have returned -/
  | created (baseAdded delAdded : Bool)
  | failed
  | analyseDrop (todo names : List Name)
  | dropLoop (names : List Name)
  | deleteTableFiles (call : DropCall) (name : Name) (rest : List Name)
  | findTable (call : DropCall) (name : Name) (rest : List Name)
  | dropFromCatalog (call : DropCall) (name : Name) (rest : List Name) (desc : Option ℕ)
  /-- the branch for a shadow table, of which only the files are deleted -/
  | deleteDelFiles (name : Name) (rest : List Name)
  | dropped

/-- Whether files could be deleted, and whether a missing `return` is read as success. -/
structure Answer where
  files : Bool
  ret : Bool

/-- Where `Execute` goes on after a call of `DropTable`. -/
def afterDrop (name : Name) (rest : List Name) : DropCall → Bool → Statement
  | .delTable, true => .deleteTableFiles .baseTable name rest
  | .delTable, false => .deleteTableFiles .delTableAgain name rest
  | .baseTable, true => .dropLoop rest
  | .baseTable, false => .failed
  | .delTableAgain, _ => .deleteTableFiles .baseTableAgain name rest
  | .baseTableAgain, _ => .failed

def Catalog.checkBaseTbl (c : Catalog) (name : Name) : Bool :=
  if name ≠ [] ∧ name.length < 4 then true
  else if name.drop (name.length - 4) = delSuffix then
    (c.getTable (name.take (name.length - 4))).isNone
  else (c.getTable (name ++ delSuffix)).isSome

def statementStep (answer : Answer) (c : Catalog) : Statement → Option (Statement × Catalog)
  | .analyseCreate stmt =>
    if stmt.additionalName ≠ [] ∧ stmt.tableName ≠ [] then some (.failed, c)
    else if (c.getTable stmt.tableName).isSome then some (.failed, c)
    else some (.newTable stmt, c)
  | .newTable stmt =>
    some (.newDelTable stmt c.heap.length, c.newTable stmt.name (rowId :: stmt.columns))
  | .newDelTable stmt base =>
    some (if stmt.supported then .addTable base c.heap.length else .failed,
      c.newTable (stmt.name ++ delSuffix) [rowId, rowId ++ delSuffix])
  | .addTable base del =>
    c.heap[base]?.map fun t => (.addDelTable del (c.addTable base t).1, (c.addTable base t).2)
  | .addDelTable del baseAdded =>
    c.heap[del]?.map fun t => (.created baseAdded (c.addTable del t).1, (c.addTable del t).2)
  | .analyseDrop [] names => some (.dropLoop names, c)
  | .analyseDrop (name :: todo) names =>
    if name = [] ∨ (c.getTable name).isNone then some (.failed, c)
    else some (.analyseDrop todo names, c)
  | .dropLoop [] => some (.dropped, c)
  | .dropLoop (name :: rest) =>
    if name = [] then some (.dropLoop rest, c)
    else if c.checkBaseTbl name then some (.deleteTableFiles .delTable name rest, c)
    else some (.deleteDelFiles name rest, c)
  | .deleteTableFiles call name rest =>
    if call.target name = [] then some (afterDrop name rest call false, c)
    else if (c.getTable (call.target name)).isNone then none
    else if answer.files then some (.findTable call name rest, c)
    else some (afterDrop name rest call false, c)
  | .findTable call name rest =>
    some (.dropFromCatalog call name rest (c.getTable (call.target name)), c)
  | .dropFromCatalog call name rest desc =>
    (desc.bind fun l => c.heap[l]?).map fun t =>
      (afterDrop name rest call answer.ret, (c.dropTable (call.target name) t.tableId).2)
  | .deleteDelFiles name rest =>
    if (c.getTable name).isNone then none
    else if answer.files then some (.dropLoop rest, c)
    else some (.failed, c)
  | .idle | .created _ _ | .failed | .dropped => none

inductive Request
  | createTable (stmt : CreateTable)
  | dropTable (names : List Name)

def Request.begin : Request → Statement → Option Statement
  | .createTable stmt, .idle | .createTable stmt, .created _ _ | .createTable stmt, .failed
  | .createTable stmt, .dropped => some (.analyseCreate stmt)
  | .dropTable names, .idle | .dropTable names, .created _ _ | .dropTable names, .failed
  | .dropTable names, .dropped => some (if names = [] then .failed else .analyseDrop names names)
  | _, _ => none

structure State where
  catalog : Catalog
  statements : ℕ → Statement

def State.start : State := ⟨Catalog.new, fun _ => .idle⟩

inductive Action
  | begin (k : ℕ) (r : Request)
  | step (k : ℕ) (answer : Answer)

def State.move (s : State) (k : ℕ) (stmt : Statement) (c : Catalog) : State :=
  ⟨c, Function.update s.statements k stmt⟩

def step (s : State) : Action → Option State
  | .begin k r => (r.begin (s.statements k)).map fun stmt => s.move k stmt s.catalog
  | .step k answer =>
    (statementStep answer s.catalog (s.statements k)).map fun r => s.move k r.1 r.2

/-! ### What every step keeps -/

def Statement.pending : Statement → List ℕ
  | .newDelTable _ base => [base]
  | .addTable base del => [base, del]
  | .addDelTable del _ => [del]
  | _ => []

def Statement.Fair : Statement → Prop
  | .addTable base del => base ≠ del
  | .addDelTable _ baseAdded => baseAdded = true
  | .created baseAdded delAdded => baseAdded = true ∧ delAdded = true
  | .findTable call name _ | .dropFromCatalog call name _ _ => call.target name ≠ []
  | _ => True

structure Invariant (s : State) : Prop where
  sound : s.catalog.Sound
  cursor : s.catalog.tableIdCursor ≤ 2 ^ 31
  unused : ∀ k, ∀ l ∈ (s.statements k).pending, s.catalog.Unused l
  apart : ∀ k k' l, l ∈ (s.statements k).pending → l ∈ (s.statements k').pending → k = k'
  fair : ∀ k, (s.statements k).Fair

theorem start_invariant : Invariant State.start where
  sound := Catalog.new_sound
  cursor := Nat.zero_le _
  unused _ _ h := by cases h
  apart _ _ _ h := by cases h
  fair _ := trivial

/-- The step finds what it needs: an id that the cursor can count, a name that is still free, or
the table that it drops. -/
def inTime (c : Catalog) : Statement → Bool
  | .newTable _ | .newDelTable _ _ => c.tableIdCursor < 2 ^ 31
  | .addTable l _ | .addDelTable l _ => c.heap[l]?.all fun t => (c.nameToTable t.tableName).isNone
  | .dropFromCatalog call name _ desc =>
    desc.all fun l => c.nameToTable (call.target name) = some (some l)
  | _ => true

theorem name_free {c : Catalog} {l : ℕ} {t : TableDescriptor} (ht : c.heap[l]? = some t)
    (h : (c.heap[l]?.all fun t => (c.nameToTable t.tableName).isNone) = true) :
    c.nameToTable t.tableName = none := by
  rw [ht] at h
  exact isNone_iff_eq_none.mp h

section

variable {s : State}

theorem Invariant.move (h : Invariant s) {k : ℕ} {stmt : Statement} {c : Catalog}
    (hsound : c.Sound) (hcursor : c.tableIdCursor ≤ 2 ^ 31) (hfair : stmt.Fair)
    (hown : ∀ l ∈ stmt.pending, c.Unused l ∧
      (l ∈ (s.statements k).pending ∨ s.catalog.heap.length ≤ l))
    (hothers : ∀ j, j ≠ k → ∀ l ∈ (s.statements j).pending, c.Unused l) :
    Invariant (s.move k stmt c) := by
  have self : (s.move k stmt c).statements k = stmt := Function.update_self ..
  have other : ∀ {j}, j ≠ k → (s.move k stmt c).statements j = s.statements j :=
    fun hj => Function.update_of_ne hj ..
  -- what is new is in nobody else's hands
  have hnew : ∀ j, j ≠ k → ∀ l ∈ stmt.pending, l ∉ (s.statements j).pending := by
    intro j hj l hl hl'
    rcases (hown l hl).2 with hold | hge
    · exact hj (h.apart j k l hl' hold)
    · exact absurd (h.unused j l hl').lt_length (Nat.not_lt.mpr hge)
  refine ⟨hsound, hcursor, fun j l hl => ?_, fun j j' l hl hl' => ?_, fun j => ?_⟩
  · by_cases hj : j = k
    · subst hj
      rw [self] at hl
      exact (hown l hl).1
    · rw [other hj] at hl
      exact hothers j hj l hl
  · by_cases hj : j = k <;> by_cases hj' : j' = k
    · rw [hj, hj']
    · rw [hj, self] at hl
      rw [other hj'] at hl'
      exact absurd hl' (hnew j' hj' l hl)
    · rw [other hj] at hl
      rw [hj', self] at hl'
      exact absurd hl (hnew j hj l hl')
    · rw [other hj] at hl
      rw [other hj'] at hl'
      exact h.apart j j' l hl hl'
  · by_cases hj : j = k
    · rw [hj, self]
      exact hfair
    · rw [other hj]
      exact h.fair j

theorem Invariant.goto (h : Invariant s) {k : ℕ} {stmt : Statement} (hfair : stmt.Fair)
    (hpending : stmt.pending = []) : Invariant (s.move k stmt s.catalog) :=
  h.move h.sound h.cursor hfair (by simp [hpending]) fun j _ => h.unused j

theorem afterDrop_fair (name : Name) (rest : List Name) (call : DropCall) (ok : Bool) :
    (afterDrop name rest call ok).Fair := by
  cases call <;> cases ok <;> trivial

theorem afterDrop_pending (name : Name) (rest : List Name) (call : DropCall) (ok : Bool) :
    (afterDrop name rest call ok).pending = [] := by
  cases call <;> cases ok <;> rfl

theorem statementStep_invariant (h : Invariant s) {k : ℕ} {answer : Answer}
    (htime : inTime s.catalog (s.statements k) = true) {r : Statement × Catalog}
    (hstep : statementStep answer s.catalog (s.statements k) = some r) :
    Invariant (s.move k r.1 r.2) := by
  have hfair := h.fair k
  have hunused := h.unused k
  have hkeep : ∀ j, j ≠ k → ∀ l ∈ (s.statements j).pending, s.catalog.Unused l :=
    fun j _ => h.unused j
  have happart : ∀ j, j ≠ k → ∀ l ∈ (s.statements j).pending, l ∉ (s.statements k).pending :=
    fun j hj l hl hl' => hj (h.apart j k l hl hl')
  have room : ∀ columns name, s.catalog.tableIdCursor < 2 ^ 31 →
      s.catalog.tableIdCursor + 1 < 2 ^ 32 ∧
        (s.catalog.newTable name columns).tableIdCursor ≤ 2 ^ 31 := by
    intro columns name hlt
    have hroom : s.catalog.tableIdCursor + 1 < 2 ^ 32 := by omega
    exact ⟨hroom, by rw [Catalog.newTable_cursor hroom]; exact hlt⟩
  cases hpc : s.statements k <;> rw [hpc] at hstep htime hfair hunused happart
  case newTable stmt =>
    cases hstep
    obtain ⟨hlt, hcursor⟩ := room (rowId :: stmt.columns) stmt.name (of_decide_eq_true htime)
    refine h.move (h.sound.newTable hlt _ _) hcursor trivial (fun l hl => ?_) fun j hj l hl =>
      (hkeep j hj l hl).newTable _ _
    obtain rfl := mem_singleton.mp hl
    exact ⟨h.sound.unused_newTable _ _, .inr le_rfl⟩
  case newDelTable stmt base =>
    simp only [statementStep, some.injEq] at hstep
    subst hstep
    have hbase : s.catalog.Unused base := hunused base mem_cons_self
    obtain ⟨hlt, hcursor⟩ :=
      room [rowId, rowId ++ delSuffix] (stmt.name ++ delSuffix) (of_decide_eq_true htime)
    refine h.move (h.sound.newTable hlt _ _) hcursor ?_ ?_ fun j hj l hl =>
      (hkeep j hj l hl).newTable _ _
    · dsimp only
      split
      · exact Nat.ne_of_lt hbase.lt_length
      · trivial
    · intro l hl
      dsimp only at hl
      split at hl
      · rcases mem_cons.mp hl with rfl | hl
        · exact ⟨hbase.newTable _ _, .inl (by rw [hpc]; exact mem_cons_self)⟩
        · obtain rfl := mem_singleton.mp hl
          exact ⟨h.sound.unused_newTable _ _, .inr le_rfl⟩
      · cases hl
  case addTable base del =>
    obtain ⟨t, ht, rfl⟩ := map_eq_some_iff.mp hstep
    have hbase : s.catalog.Unused base := hunused base mem_cons_self
    obtain ⟨hadded, hsound, hsame, hrest⟩ := h.sound.addTable ht (name_free ht htime) hbase
    refine h.move hsound (hsame.trans_le h.cursor) hadded (fun l hl => ?_) fun j hj l hl => ?_
    · obtain rfl := mem_singleton.mp hl
      have hdel : s.catalog.Unused l := hunused l (mem_cons_of_mem _ mem_cons_self)
      refine ⟨hrest l (Ne.symm hfair) hdel, .inl ?_⟩
      rw [hpc]
      exact mem_cons_of_mem _ mem_cons_self
    · refine hrest l (fun hl' => happart j hj l hl ?_) (hkeep j hj l hl)
      exact hl' ▸ mem_cons_self
  case addDelTable del baseAdded =>
    obtain ⟨t, ht, rfl⟩ := map_eq_some_iff.mp hstep
    have hdel : s.catalog.Unused del := hunused del mem_cons_self
    obtain ⟨hadded, hsound, hsame, hrest⟩ := h.sound.addTable ht (name_free ht htime) hdel
    refine h.move hsound (hsame.trans_le h.cursor) ⟨hfair, hadded⟩ (fun l hl => by cases hl)
      fun j hj l hl => ?_
    refine hrest l (fun hl' => happart j hj l hl ?_) (hkeep j hj l hl)
    exact hl' ▸ mem_cons_self
  case dropFromCatalog call name rest desc =>
    obtain ⟨t, ht, rfl⟩ := map_eq_some_iff.mp hstep
    obtain ⟨l, rfl, hl⟩ := bind_eq_some_iff.mp ht
    -- the descriptor is that of the table under this name
    obtain ⟨l', t', hl', hname, hholds⟩ := h.sound.consistent.named _ _
      (of_decide_eq_true htime)
    obtain rfl : l = l' := some.inj hl'
    obtain rfl : t = t' := mem_unique hl hholds.desc
    replace hfair : call.target name ≠ [] := hfair
    rw [← hname] at hfair ⊢
    obtain ⟨hsound, hsame, hrest⟩ := h.sound.dropTable hholds hfair
    refine h.move hsound (hsame.trans_le h.cursor) (afterDrop_fair ..) (fun l hl => ?_)
      fun j hj l hl => hrest l (hkeep j hj l hl)
    rw [afterDrop_pending] at hl
    cases hl
  case deleteTableFiles call name rest =>
    simp only [statementStep] at hstep
    split at hstep
    · cases hstep
      exact h.goto (afterDrop_fair ..) (afterDrop_pending ..)
    · rename_i htarget
      split at hstep
      · cases hstep
      · split at hstep <;> cases hstep
        · exact h.goto htarget rfl
        · exact h.goto (afterDrop_fair ..) (afterDrop_pending ..)
  case findTable call name rest =>
    cases hstep
    exact h.goto hfair rfl
  case analyseDrop todo names =>
    cases todo with
    | nil =>
      cases hstep
      exact h.goto trivial rfl
    | cons name todo =>
      simp only [statementStep] at hstep
      split at hstep <;> cases hstep <;> exact h.goto trivial rfl
  case dropLoop names =>
    cases names with
    | nil =>
      cases hstep
      exact h.goto trivial rfl
    | cons name rest =>
      simp only [statementStep] at hstep
      split at hstep
      · cases hstep
        exact h.goto trivial rfl
      · split at hstep <;> cases hstep <;> exact h.goto trivial rfl
  all_goals
    simp only [statementStep] at hstep
    repeat' split at hstep
    all_goals cases hstep
    all_goals exact h.goto trivial rfl

def Action.inTime (s : State) : Action → Bool
  | .begin _ _ => true
  | .step k _ => TableCatalog.inTime s.catalog (s.statements k)

def InTimeStep (s s' : State) : Prop := ∃ a, Action.inTime s a = true ∧ step s a = some s'

theorem inTimeStep_invariant {s' : State} (h : Invariant s) (hstep : InTimeStep s s') :
    Invariant s' := by
  obtain ⟨a, htime, ha⟩ := hstep
  cases a with
  | begin k r =>
    obtain ⟨stmt, hstmt, rfl⟩ := map_eq_some_iff.mp ha
    have hbegin : stmt.Fair ∧ stmt.pending = [] := by
      unfold Request.begin at hstmt
      split at hstmt <;> cases hstmt
      all_goals try exact ⟨trivial, rfl⟩
      all_goals split <;> exact ⟨trivial, rfl⟩
    exact h.goto hbegin.1 hbegin.2
  | step k answer =>
    obtain ⟨r, hr, rfl⟩ := map_eq_some_iff.mp ha
    exact statementStep_invariant h htime hr

end

theorem identity_of_invariant {s : State} (h : Invariant s) :
    s.catalog.Consistent ∧ s.catalog.tableidToTable s.catalog.tableIdCursor = none ∧
      ∀ i p, s.catalog.tableidToTable i = some p → (i, p) ∈ s.catalog.visited := by
  refine ⟨h.sound.consistent, ?_, fun i p hp => h.sound.consistent.mem_visited h.cursor hp⟩
  cases hp : s.catalog.tableidToTable s.catalog.tableIdCursor with
  | none => rfl
  | some p => exact absurd (h.sound.consistent.below _ p hp) (Nat.lt_irrefl _)

/-! ### Inside the calls -/

/-- Where a call of `add_table` or `DropTable` is; each access of a map is a step of its own. -/
inductive Call
  | findName (l : ℕ) (t : TableDescriptor)
  | findId (l : ℕ) (t : TableDescriptor)
  | putName (l : ℕ) (t : TableDescriptor)
  | putId (l : ℕ) (t : TableDescriptor)
  | lookName (name : Name) (id : ℕ)
  | eraseName (name : Name) (id : ℕ) (desc : Option ℕ)
  | lookId (name : Name) (id : ℕ) (isnamedrop : Bool) (desc : Option ℕ)
  | eraseId (name : Name) (id : ℕ) (isnamedrop : Bool) (desc : Option ℕ)
  | putBackId (name : Name) (id : ℕ) (istableIDdrop : Bool) (desc : Option ℕ)
  | putBackName (name : Name) (desc : Option ℕ)
  | return (result : Bool)

/-- The next access of a call; none when it has returned. -/
def Call.next : Call → Catalog → Option (Call × Catalog)
  | .findName l t, c =>
    if (c.nameToTable t.tableName).isSome then some (.return false, c.decreaseTableId)
    else some (.findId l t, c)
  | .findId l t, c =>
    if (c.tableidToTable t.tableId).isSome then some (.return false, c) else some (.putName l t, c)
  | .putName l t, c =>
    some (.putId l t, { c with
      nameToTable := update c.nameToTable t.tableName (some (some l)) })
  | .putId l t, c =>
    some (.return true, { c with
      tableidToTable := update c.tableidToTable t.tableId (some (some l)) })
  | .lookName name id, c =>
    if name ≠ [] then some (.eraseName name id (c.getTable name), c)
    else some (.lookId name id false none, c)
  | .eraseName name id desc, c =>
    some (.lookId name id (c.nameToTable name).isSome desc, c.eraseName name)
  | .lookId name id isnamedrop desc, c =>
    if id ≠ 2 ^ 32 - 1 then some (.eraseId name id isnamedrop (c.getTableById id), c)
    else if isnamedrop then some (.putBackName name desc, c)
    else some (.putBackId name id false desc, c)
  | .eraseId name id isnamedrop desc, c =>
    let istableIDdrop := (c.tableidToTable id).isSome
    some (if isnamedrop && istableIDdrop then .return true
      else if isnamedrop then .putBackName name desc
      else .putBackId name id istableIDdrop desc, c.eraseId id)
  | .putBackId name id istableIDdrop desc, c =>
    some (if istableIDdrop then .return false else .putBackName name desc,
      { c with tableidToTable := update c.tableidToTable id (some desc) })
  | .putBackName name desc, c =>
    some (.return false, { c with nameToTable := update c.nameToTable name (some desc) })
  | .return _, _ => none

/-- The call has `n` accesses at most before it, which nothing else comes between. -/
def Call.Ends : ℕ → Call → Catalog → Bool × Catalog → Prop
  | 0, call, c, r => call = .return r.1 ∧ c = r.2
  | n + 1, call, c, r => match call.next c with
    | none => call = .return r.1 ∧ c = r.2
    | some (call', c') => Call.Ends n call' c' r

/-- **`add_table`**, when nothing comes between its accesses. -/
theorem ends_findName (c : Catalog) (l : ℕ) (t : TableDescriptor) :
    Call.Ends 4 (.findName l t) c (c.addTable l t) := by
  unfold Catalog.addTable
  split_ifs with hn hi <;> simp [Call.Ends, Call.next, *]

/-- **`DropTable`**, when nothing comes between its accesses. -/
theorem ends_lookName (c : Catalog) (name : Name) (id : ℕ) :
    Call.Ends 6 (.lookName name id) c (c.dropTable name id) := by
  by_cases hname : name = [] <;> by_cases hid : id = 2 ^ 32 - 1 <;>
    cases hn : (c.nameToTable name).isSome <;> cases hi : (c.tableidToTable id).isSome <;>
    simp_all [Call.Ends, Call.next, Catalog.dropTable, Catalog.eraseName, Catalog.eraseId,
      Catalog.getTable, Catalog.getTableById]

/-- The call that a statement is about to make. -/
def Statement.call (c : Catalog) : Statement → Option Call
  | .addTable base _ => c.heap[base]?.map (.findName base)
  | .addDelTable del _ => c.heap[del]?.map (.findName del)
  | .dropFromCatalog call name _ desc =>
    (desc.bind fun l => c.heap[l]?).map fun t => .lookName (call.target name) t.tableId
  | _ => none

/-- Where a statement goes on when its call has returned. -/
def Statement.resume (answer : Answer) (result : Bool) : Statement → Statement
  | .addTable _ del => .addDelTable del result
  | .addDelTable _ baseAdded => .created baseAdded result
  | .dropFromCatalog call name rest _ => afterDrop name rest call answer.ret
  | stmt => stmt

/-- The statements, and the calls that some of them are in. -/
structure Threads where
  state : State
  calls : List (ℕ × Call)

namespace Threads

def start : Threads := ⟨State.start, []⟩

def call (s : Threads) (k : ℕ) : Option Call := (s.calls.find? (·.1 = k)).map (·.2)

def leave (s : Threads) (k : ℕ) : List (ℕ × Call) := s.calls.filter (·.1 ≠ k)

def step (s : Threads) : Action → Option Threads
  | .begin k r => (TableCatalog.step s.state (.begin k r)).map (⟨·, s.calls⟩)
  | .step k answer =>
    match s.call k with
    | some (.return result) =>
      some ⟨s.state.move k ((s.state.statements k).resume answer result) s.state.catalog,
        s.leave k⟩
    | some call => (call.next s.state.catalog).map fun r =>
      ⟨{ s.state with catalog := r.2 }, (k, r.1) :: s.leave k⟩
    | none =>
      match (s.state.statements k).call s.state.catalog with
      | some call => some ⟨s.state, (k, call) :: s.calls⟩
      | none => (TableCatalog.step s.state (.step k answer)).map (⟨·, s.calls⟩)

/-- The action finds what it needs when a call begins, and comes in no other statement's call. -/
def allows (s : Threads) : Action → Bool
  | .begin _ _ => true
  | .step k answer =>
    s.calls.all (·.1 = k) && ((s.call k).isSome || (Action.step k answer).inTime s.state)

theorem leave_singleton (s : State) (k : ℕ) (call : Call) : leave ⟨s, [(k, call)]⟩ k = [] := by
  simp [leave]

end Threads

def SerialStep (s s' : Threads) : Prop := ∃ a, s.allows a = true ∧ s.step a = some s'

/-- Between calls the statements are as in `InTimeStep`; inside one, as before it began. -/
inductive Simulates : Threads → State → Prop
  | between (s : State) : Simulates ⟨s, []⟩ s
  | inside (s : State) (k : ℕ) {call : Call} {c : Catalog} {n : ℕ} {r : Bool × Catalog}
      (htime : inTime s.catalog (s.statements k) = true)
      (hdoes : ∀ answer, statementStep answer s.catalog (s.statements k) =
        some ((s.statements k).resume answer r.1, r.2))
      (hends : call.Ends n c r) : Simulates ⟨⟨c, s.statements⟩, [(k, call)]⟩ s

/-- A call does alone what `statementStep` does at once. -/
theorem Statement.call_spec {c : Catalog} {stmt : Statement} {call : Call}
    (h : stmt.call c = some call) : ∃ n r, call.Ends n c r ∧
      ∀ answer, statementStep answer c stmt = some (stmt.resume answer r.1, r.2) := by
  cases stmt with
  | addTable base del =>
    obtain ⟨t, ht, rfl⟩ := map_eq_some_iff.1 h
    exact ⟨4, _, ends_findName c base t, fun answer => by simp [statementStep, ht, resume]⟩
  | addDelTable del baseAdded =>
    obtain ⟨t, ht, rfl⟩ := map_eq_some_iff.1 h
    exact ⟨4, _, ends_findName c del t, fun answer => by simp [statementStep, ht, resume]⟩
  | dropFromCatalog call name rest desc =>
    obtain ⟨t, ht, rfl⟩ := map_eq_some_iff.1 h
    exact ⟨6, _, ends_lookName c _ _, fun answer => by simp [statementStep, ht, resume]⟩
  | _ => cases h

theorem Call.Ends.next {n : ℕ} {call call' : Call} {c c' : Catalog} {r : Bool × Catalog}
    (h : call.Ends n c r) (hnext : call.next c = some (call', c')) : ∃ m, call'.Ends m c' r := by
  cases n with
  | zero =>
    obtain ⟨rfl, -⟩ := h
    cases hnext
  | succ n =>
    rw [Ends, hnext] at h
    exact ⟨n, h⟩

theorem Call.Ends.of_return {n : ℕ} {result : Bool} {c : Catalog} {r : Bool × Catalog}
    (h : (Call.return result).Ends n c r) : (result, c) = r := by
  cases n <;> obtain ⟨hcall, rfl⟩ := h <;> cases hcall <;> rfl

theorem Request.statementStep_eq_none {r : Request} {stmt stmt' : Statement}
    (h : r.begin stmt = some stmt') (answer : Answer) (c : Catalog) :
    statementStep answer c stmt = none := by
  unfold Request.begin at h
  split at h <;> first | rfl | cases h

/-- **One step**: a call takes effect when it returns. -/
theorem Simulates.step {s s' : Threads} {a : State} (h : Simulates s a)
    (hstep : SerialStep s s') : ∃ a', Simulates s' a' ∧ Runs.Reaches InTimeStep a a' := by
  obtain ⟨act, hallows, hact⟩ := hstep
  cases act with
  | begin k r =>
    obtain ⟨s₁, hs₁, rfl⟩ := map_eq_some_iff.1 hact
    cases h with
    | between => exact ⟨s₁, .between s₁, .single ⟨.begin k r, rfl, hs₁⟩⟩
    | inside _ j htime hdoes hends =>
      obtain ⟨stmt, hstmt, rfl⟩ := map_eq_some_iff.1 hs₁
      have hne : j ≠ k := by
        rintro rfl
        have hnone := Request.statementStep_eq_none hstmt ⟨true, true⟩ a.catalog
        rw [hdoes] at hnone
        cases hnone
      have hj : (a.move k stmt a.catalog).statements j = a.statements j :=
        Function.update_of_ne hne ..
      refine ⟨a.move k stmt a.catalog, Simulates.inside (a.move k stmt a.catalog) j ?_ ?_ hends,
        .single ⟨.begin k r, rfl, ?_⟩⟩
      · rwa [hj]
      · rwa [hj]
      · exact map_eq_some_iff.2 ⟨stmt, hstmt, rfl⟩
  | step k answer =>
    rw [Threads.allows, Bool.and_eq_true] at hallows
    cases h with
    | between =>
      simp only [Threads.step, Threads.call, find?_nil, map_none] at hact
      split at hact
      · rename_i call hcall
        cases hact
        obtain ⟨n, r, hends, hdoes⟩ := Statement.call_spec hcall
        exact ⟨a, .inside a k hallows.2 hdoes hends, .refl⟩
      · obtain ⟨s₁, hs₁, rfl⟩ := map_eq_some_iff.1 hact
        exact ⟨s₁, .between s₁, .single ⟨.step k answer, hallows.2, hs₁⟩⟩
    | inside _ j htime hdoes hends =>
      obtain rfl : j = k := by simpa using hallows.1
      simp only [Threads.step, Threads.call, find?_cons, decide_true, map_some] at hact
      split at hact
      · rename_i result hcall
        obtain rfl := some.inj hcall
        obtain rfl := hends.of_return
        cases hact
        refine ⟨_, ?_, .single ⟨.step j answer, htime, map_eq_some_iff.2 ⟨_, hdoes answer, rfl⟩⟩⟩
        rw [Threads.leave_singleton]
        exact .between _
      · rename_i call hcall
        obtain rfl := some.inj hcall
        obtain ⟨⟨call', c₁⟩, hnext, rfl⟩ := map_eq_some_iff.1 hact
        obtain ⟨m, hends⟩ := hends.next hnext
        refine ⟨a, ?_, .refl⟩
        rw [Threads.leave_singleton]
        exact .inside a j htime hdoes hends
      · rename_i hcall
        cases hcall

/-- **The identity of tables**, in runs in which no other statement comes into a call of `add_table`
or `DropTable`, names are free when added and tables there to drop. -/
theorem catalogue_identity {s : Threads} (hrun : Runs.Reaches SerialStep .start s) :
    (s.calls = [] → s.state.catalog.Consistent ∧
      s.state.catalog.tableidToTable s.state.catalog.tableIdCursor = none ∧
      ∀ i p, s.state.catalog.tableidToTable i = some p → (i, p) ∈ s.state.catalog.visited) ∧
      ∀ k baseAdded delAdded, s.state.statements k = .created baseAdded delAdded →
        baseAdded = true ∧ delAdded = true := by
  obtain ⟨a, hsim, ha⟩ := Runs.simulation (R := Simulates) (fun _ _ _ => Simulates.step) hrun
    (.between State.start)
  have h : Invariant a :=
    Runs.invariant (I := Invariant) (fun _ _ => inTimeStep_invariant) ha start_invariant
  have hcreated : ∀ k baseAdded delAdded, a.statements k = .created baseAdded delAdded →
      baseAdded = true ∧ delAdded = true := by
    intro k baseAdded delAdded hk
    have hfair := h.fair k
    rwa [hk] at hfair
  cases hsim with
  | between => exact ⟨fun _ => identity_of_invariant h, hcreated⟩
  | inside => exact ⟨nofun, hcreated⟩

def createNamed (name : Name) : Request := .createTable ⟨name, [], [], true⟩

def steps (k n : ℕ) : List Action := replicate n (.step k ⟨true, true⟩)

def createThenDrop : List Action :=
  .begin 0 (createNamed ['t']) :: steps 0 15 ++ .begin 1 (.dropTable [['t']]) :: steps 1 20

theorem identity_after_create_and_drop : ∃ s : Threads,
    Runs.Reaches SerialStep .start s ∧ s.state.catalog.tableIdCursor = 2 ∧
      s.state.catalog.nameToTable ['t'] = none ∧ s.state.catalog.Consistent := by
  let act (s : Threads) (a : Action) : Option Threads := if s.allows a then s.step a else none
  obtain ⟨s, hs⟩ : ∃ s, createThenDrop.foldlM act .start = some s :=
    isSome_iff_exists.mp (by decide)
  have hend : (createThenDrop.foldlM act .start).map (fun s =>
      ((s.state.catalog.tableIdCursor, s.state.catalog.nameToTable ['t']), s.calls.length)) =
        some ((2, none), 0) := by
    decide
  rw [hs, map_some, some.injEq, Prod.mk.injEq, Prod.mk.injEq] at hend
  have hreach : Runs.Reaches SerialStep .start s := by
    refine Runs.reaches_of_foldlM (fun s a s' ha => ?_) hs
    obtain ⟨hallows, ha⟩ := ite_none_right_eq_some.mp ha
    exact ⟨a, hallows, ha⟩
  exact ⟨s, hreach, hend.1.1, hend.1.2,
    ((catalogue_identity hreach).1 (length_eq_zero_iff.1 hend.2)).1⟩

/-- Two statements create `t`, both having found the name free; a third one creates `u`. -/
def createTwiceAndOther : List Action :=
  [.begin 0 (createNamed ['t']), .begin 1 (createNamed ['t']), .begin 2 (createNamed ['u'])] ++
    steps 0 1 ++ steps 1 1 ++ steps 0 2 ++ steps 1 2 ++ steps 0 12 ++ steps 2 15 ++ steps 1 6

/-- The same two statements; both look for the name before either enters its table. -/
def createTwiceAtOnce : List Action :=
  [.begin 0 (createNamed ['t']), .begin 1 (createNamed ['t'])] ++ steps 0 5 ++ steps 1 5 ++
    steps 0 10 ++ steps 1 7

/-- The second statement has added no table, and the next id is in use.  If the calls overlap, both
have added theirs, one of them without its name. -/
theorem id_above_cursor :
    (createTwiceAndOther.foldlM Threads.step .start).map (fun s =>
      (s.state.catalog.tableIdCursor, (s.state.catalog.tableidToTable 4).isSome,
        s.state.catalog.getAllTables)) = some (4, true, some [['t']]) ∧
    ((createTwiceAndOther.foldlM Threads.step .start).map fun s =>
      match s.state.statements 1 with
      | .created baseAdded delAdded => baseAdded || delAdded
      | _ => true) = some false ∧
    (createTwiceAtOnce.foldlM Threads.step .start).map (fun s =>
      (s.calls.length, s.state.catalog.tableidToTable 0, s.state.catalog.tableidToTable 2,
        s.state.catalog.nameToTable ['t'])) =
      some (0, some (some 0), some (some 2), some (some 2)) := by
  refine ⟨?_, ?_, ?_⟩ <;> decide

end TableCatalog
