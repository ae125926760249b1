/-
What the threads of a hash join and of a sort do in `Open`.

A thread registers at all barriers first and arrives at one after the other.  Between, it tests for
cancellation, and in a hash join whether it has been called back; only then it unregisters before
it returns.
-/
import ClaimsDB.Barriers

namespace OpenPrograms

open Function (update update_of_ne update_self)
open Barriers

/-! ### The data the threads share -/

structure Shared where
  /-- The keys of the serialized sections that nobody has taken yet. -/
  keys : ℕ → Bool
  /-- The winner of the first section has created the hash table, or the buffer of the sort. -/
  created : Bool
  /-- The child that the operator reads in `Open` has reported that it has no more blocks. -/
  exhausted : Bool
  cancelled : Bool
  calledBack : ℕ → Bool
  /-- How many tuples of the block that a thread got last it has not stored yet. -/
  left : ℕ → ℕ

def fresh : Shared := ⟨fun _ => true, false, false, false, fun _ => false, fun _ => 0⟩

/-- What a call of a thread comes back with: a block with so many tuples, no block because there
is none left, or nothing. -/
inductive Answer where
  | block (tuples : ℕ)
  | exhausted
  | refused
deriving DecidableEq, Repr

/-- What comes from outside: the statement is cancelled, a thread is called back. -/
inductive Signal where
  | cancel
  | callBack (t : ℕ)

def Shared.receive : Signal → Shared → Shared
  | .cancel, d => { d with cancelled := true }
  | .callBack t, d => { d with calledBack := update d.calledBack t true }

abbrev Act (Pc : Type) : Type := ℕ → Answer → Shared → Option (Shared × Pc)

variable {Pc : Type}

def returnIfCancelled (gone next : Pc) : Act Pc := fun _ _ d =>
  some (d, if d.cancelled then gone else next)

def tryEntryIntoSerializedSection (k : ℕ) (winner others : Pc) : Act Pc := fun _ _ d =>
  if d.keys k then some ({ d with keys := update d.keys k false }, winner)
  else some (d, others)

def create (next : Pc) : Act Pc := fun _ _ d => some ({ d with created := true }, next)

def proceed (next : Pc) : Act Pc := fun _ _ d => some (d, next)

/-- `Next` of the child, which turns away threads called back or cancelled. -/
def childNext (onBlock onEnd : Pc) : Act Pc := fun t a d =>
  match a with
  | .block tuples =>
    if d.exhausted then none
    else some ({ d with left := update d.left t tuples }, onBlock)
  | .exhausted => some ({ d with exhausted := true }, onEnd)
  | .refused => if d.cancelled || d.calledBack t then some (d, onEnd) else none

def storeTuple (again next : Pc) : Act Pc := fun t _ d =>
  if d.left t = 0 then some (d, next)
  else some ({ d with left := update d.left t (d.left t - 1) }, again)

def createBlock (gone next : Pc) : Act Pc := fun _ a d =>
  some (d, if a = .refused then gone else next)

def isExpandedThreadCallBack (yes no : Pc) : Act Pc := fun t _ d =>
  some (d, if d.calledBack t then yes else no)

/-- The caller calls `Next` again or does not, as it turns out. -/
def callNext (stop next : Pc) : Act Pc := fun _ a d =>
  some (d, if a = .refused then stop else next)

/-! ### PhysicalHashJoin -/

inductive HashJoinPc where
  | entry
  | registerFirst
  | registerSecond
  | trySection
  | createTable
  | openLeft
  | arriveFirst
  | checkLeft
  | askLeft
  | checkBlock
  | insert
  | testCallBack
  | unregister
  | arriveSecond
  | openRight
  | checkNext
  | probe
  | refused
  | abandoned
  | calledBack
  | finished
deriving DecidableEq, Repr

/-- `PhysicalHashJoin::Open`, and the calls of `Next` that follow. -/
def hashJoin : Program Shared HashJoinPc Answer Signal where
  start := .entry
  world := Shared.receive
  code
    | .entry => .act (returnIfCancelled .refused .registerFirst)
    -- RegisterExpandedThreadToAllBarriers, barrier by barrier
    | .registerFirst => .register 0 .registerSecond
    | .registerSecond => .register 1 .trySection
    | .trySection => .act (tryEntryIntoSerializedSection 0 .createTable .openLeft)
    | .createTable => .act (create .openLeft)
    | .openLeft => .act (proceed .arriveFirst)
    | .arriveFirst => .arrive 0 .checkLeft
    | .checkLeft => .act (returnIfCancelled .abandoned .askLeft)
    | .askLeft => .act (childNext .checkBlock .testCallBack)
    | .checkBlock => .act (returnIfCancelled .abandoned .insert)
    | .insert => .act (storeTuple .insert .askLeft)
    | .testCallBack => .act (isExpandedThreadCallBack .unregister .arriveSecond)
    -- UnregisterExpandedThreadToAllBarriers(1), of two barriers
    | .unregister => .unregister 1 .calledBack
    | .arriveSecond => .arrive 1 .openRight
    | .openRight => .act (callNext .finished .checkNext)
    -- Next reads the hash table for each tuple of the right child
    | .checkNext => .act (returnIfCancelled .finished .probe)
    | .probe => .act (callNext .finished .checkNext)
    | .refused | .abandoned | .calledBack | .finished => .exit

/-! ### PhysicalSort -/

inductive SortPc where
  | entry
  | registerFirst
  | registerSecond
  | registerThird
  | trySection
  | clear
  | arriveFirst
  | createFirst
  | openChild
  | checkChild
  | askChild
  | checkBlock
  | append
  | createAnother
  | appendAll
  | arriveSecond
  | tryOrder
  | prepare
  | checkOrder
  | order
  | arriveThird
  | refused
  | abandonedSecond
  | abandonedThird
  | finished
deriving DecidableEq, Repr

def sort : Program Shared SortPc Answer Signal where
  start := .entry
  world := Shared.receive
  code
    | .entry => .act (returnIfCancelled .refused .registerFirst)
    | .registerFirst => .register 0 .registerSecond
    | .registerSecond => .register 1 .registerThird
    | .registerThird => .register 2 .trySection
    | .trySection => .act (tryEntryIntoSerializedSection 0 .clear .arriveFirst)
    | .clear => .act (create .arriveFirst)
    | .arriveFirst => .arrive 0 .createFirst
    | .createFirst => .act (createBlock .abandonedSecond .openChild)
    | .openChild => .act (proceed .checkChild)
    | .checkChild => .act (returnIfCancelled .abandonedSecond .askChild)
    | .askChild => .act (childNext .checkBlock .appendAll)
    | .checkBlock => .act (returnIfCancelled .abandonedSecond .append)
    | .append => .act (storeTuple .append .createAnother)
    | .createAnother => .act (createBlock .abandonedSecond .askChild)
    | .appendAll => .act (proceed .arriveSecond)
    | .arriveSecond => .arrive 1 .tryOrder
    | .tryOrder => .act (tryEntryIntoSerializedSection 1 .prepare .arriveThird)
    | .prepare => .act (proceed .checkOrder)
    | .checkOrder => .act (returnIfCancelled .abandonedThird .order)
    | .order => .act (proceed .arriveThird)
    | .arriveThird => .arrive 2 .finished
    | .refused | .abandonedSecond | .abandonedThird | .finished => .exit

/-! ### What a thread has done at the barriers when it comes to a place -/

def atBarriers (first second third : Status) : ℕ → Status
  | 0 => first
  | 1 => second
  | 2 => third
  | _ => .out

@[simp] theorem update_first (a b c new : Status) :
    update (atBarriers a b c) 0 new = atBarriers new b c := by
  funext k
  match k with
  | 0 | 1 | 2 | k + 3 => rfl

@[simp] theorem update_second (a b c new : Status) :
    update (atBarriers a b c) 1 new = atBarriers a new c := by
  funext k
  match k with
  | 0 | 1 | 2 | k + 3 => rfl

@[simp] theorem update_third (a b c new : Status) :
    update (atBarriers a b c) 2 new = atBarriers a b new := by
  funext k
  match k with
  | 0 | 1 | 2 | k + 3 => rfl

theorem atBarriers_out : atBarriers .out .out .out = fun _ => .out := by
  funext k
  match k with
  | 0 | 1 | 2 | k + 3 => rfl

theorem atBarriers_ne_registered {a b c : Status}
    (h : a ≠ .registered ∧ b ≠ .registered ∧ c ≠ .registered) (k : ℕ) :
    atBarriers a b c k ≠ .registered := by
  match k with
  | 0 => exact h.1
  | 1 => exact h.2.1
  | 2 => exact h.2.2
  | k + 3 => exact fun hout => by cases hout

def HashJoinPc.done : HashJoinPc → ℕ → Status
  | .entry | .registerFirst | .refused => atBarriers .out .out .out
  | .registerSecond => atBarriers .registered .out .out
  | .trySection | .createTable | .openLeft | .arriveFirst => atBarriers .registered .registered .out
  | .checkLeft | .askLeft | .checkBlock | .insert | .testCallBack | .unregister | .arriveSecond
  | .abandoned => atBarriers .arrived .registered .out
  | .calledBack => atBarriers .arrived .unregistered .out
  | .openRight | .checkNext | .probe | .finished => atBarriers .arrived .arrived .out

def SortPc.done : SortPc → ℕ → Status
  | .entry | .registerFirst | .refused => atBarriers .out .out .out
  | .registerSecond => atBarriers .registered .out .out
  | .registerThird => atBarriers .registered .registered .out
  | .trySection | .clear | .arriveFirst => atBarriers .registered .registered .registered
  | .createFirst | .openChild | .checkChild | .askChild | .checkBlock | .append | .createAnother
  | .appendAll | .arriveSecond | .abandonedSecond => atBarriers .arrived .registered .registered
  | .tryOrder | .prepare | .checkOrder | .order | .arriveThird | .abandonedThird =>
    atBarriers .arrived .arrived .registered
  | .finished => atBarriers .arrived .arrived .arrived

/-! ### All that a thread can do to the shared data -/

inductive HashJoinAct (t : ℕ) (a : Answer) (d : Shared) : HashJoinPc → Shared → HashJoinPc → Prop
  | refuse (h : d.cancelled = true) : HashJoinAct t a d .entry d .refused
  | enter (h : d.cancelled = false) : HashJoinAct t a d .entry d .registerFirst
  | win (h : d.keys 0 = true) :
      HashJoinAct t a d .trySection { d with keys := update d.keys 0 false } .createTable
  | lose (h : d.keys 0 = false) : HashJoinAct t a d .trySection d .openLeft
  | create : HashJoinAct t a d .createTable { d with created := true } .openLeft
  | openLeft : HashJoinAct t a d .openLeft d .arriveFirst
  | abandonLeft (h : d.cancelled = true) : HashJoinAct t a d .checkLeft d .abandoned
  | checkLeft (h : d.cancelled = false) : HashJoinAct t a d .checkLeft d .askLeft
  | block (tuples : ℕ) (h : d.exhausted = false) :
      HashJoinAct t a d .askLeft { d with left := update d.left t tuples } .checkBlock
  | exhausted : HashJoinAct t a d .askLeft { d with exhausted := true } .testCallBack
  | turnedAway (h : d.cancelled = true ∨ d.calledBack t = true) :
      HashJoinAct t a d .askLeft d .testCallBack
  | abandonBlock (h : d.cancelled = true) : HashJoinAct t a d .checkBlock d .abandoned
  | checkBlock (h : d.cancelled = false) : HashJoinAct t a d .checkBlock d .insert
  | insert :
      HashJoinAct t a d .insert { d with left := update d.left t (d.left t - 1) } .insert
  | inserted (h : d.left t = 0) : HashJoinAct t a d .insert d .askLeft
  | calledBack (h : d.calledBack t = true) : HashJoinAct t a d .testCallBack d .unregister
  | keepsOn (h : d.calledBack t = false) : HashJoinAct t a d .testCallBack d .arriveSecond
  | noNext : HashJoinAct t a d .openRight d .finished
  | openRight : HashJoinAct t a d .openRight d .checkNext
  | cancelNext (h : d.cancelled = true) : HashJoinAct t a d .checkNext d .finished
  | checkNext (h : d.cancelled = false) : HashJoinAct t a d .checkNext d .probe
  | lastProbe : HashJoinAct t a d .probe d .finished
  | probe : HashJoinAct t a d .probe d .checkNext

inductive SortAct (t : ℕ) (a : Answer) (d : Shared) : SortPc → Shared → SortPc → Prop
  | refuse (h : d.cancelled = true) : SortAct t a d .entry d .refused
  | enter (h : d.cancelled = false) : SortAct t a d .entry d .registerFirst
  | win (h : d.keys 0 = true) :
      SortAct t a d .trySection { d with keys := update d.keys 0 false } .clear
  | lose (h : d.keys 0 = false) : SortAct t a d .trySection d .arriveFirst
  | clear : SortAct t a d .clear { d with created := true } .arriveFirst
  | failFirst (h : a = .refused) : SortAct t a d .createFirst d .abandonedSecond
  | createFirst : SortAct t a d .createFirst d .openChild
  | openChild : SortAct t a d .openChild d .checkChild
  | abandonChild (h : d.cancelled = true) : SortAct t a d .checkChild d .abandonedSecond
  | checkChild (h : d.cancelled = false) : SortAct t a d .checkChild d .askChild
  | block (tuples : ℕ) (h : d.exhausted = false) :
      SortAct t a d .askChild { d with left := update d.left t tuples } .checkBlock
  | exhausted : SortAct t a d .askChild { d with exhausted := true } .appendAll
  | turnedAway (h : d.cancelled = true ∨ d.calledBack t = true) :
      SortAct t a d .askChild d .appendAll
  | abandonBlock (h : d.cancelled = true) : SortAct t a d .checkBlock d .abandonedSecond
  | checkBlock (h : d.cancelled = false) : SortAct t a d .checkBlock d .append
  | append :
      SortAct t a d .append { d with left := update d.left t (d.left t - 1) } .append
  | appended (h : d.left t = 0) : SortAct t a d .append d .createAnother
  | failAnother (h : a = .refused) : SortAct t a d .createAnother d .abandonedSecond
  | createAnother : SortAct t a d .createAnother d .askChild
  | appendAll : SortAct t a d .appendAll d .arriveSecond
  | order (h : d.keys 1 = true) :
      SortAct t a d .tryOrder { d with keys := update d.keys 1 false } .prepare
  | leaveOrder (h : d.keys 1 = false) : SortAct t a d .tryOrder d .arriveThird
  | prepare : SortAct t a d .prepare d .checkOrder
  | abandonOrder (h : d.cancelled = true) : SortAct t a d .checkOrder d .abandonedThird
  | checkOrder (h : d.cancelled = false) : SortAct t a d .checkOrder d .order
  | ordered : SortAct t a d .order d .arriveThird

section Targets

variable {t : ℕ} {a : Answer} {d d' : Shared} {pc pc' target : Pc}

theorem returnIfCancelled_cases (h : returnIfCancelled pc pc' t a d = some (d', target)) :
    d.cancelled = true ∧ d' = d ∧ target = pc ∨ d.cancelled = false ∧ d' = d ∧ target = pc' := by
  cases h
  cases hc : d.cancelled
  · exact .inr ⟨rfl, rfl, rfl⟩
  · exact .inl ⟨rfl, rfl, rfl⟩

theorem tryEntry_cases {k : ℕ}
    (h : tryEntryIntoSerializedSection k pc pc' t a d = some (d', target)) :
    d.keys k = true ∧ d' = { d with keys := update d.keys k false } ∧ target = pc ∨
      d.keys k = false ∧ d' = d ∧ target = pc' := by
  unfold tryEntryIntoSerializedSection at h
  split at h
  case isTrue hk =>
    cases h
    exact .inl ⟨hk, rfl, rfl⟩
  case isFalse hk =>
    cases h
    exact .inr ⟨eq_false_of_ne_true hk, rfl, rfl⟩

theorem childNext_cases (h : childNext pc pc' t a d = some (d', target)) :
    (∃ tuples, d.exhausted = false ∧ d' = { d with left := update d.left t tuples } ∧
        target = pc) ∨
      d' = { d with exhausted := true } ∧ target = pc' ∨
      (d.cancelled = true ∨ d.calledBack t = true) ∧ d' = d ∧ target = pc' := by
  cases a with
  | block tuples =>
    obtain ⟨hmore, h⟩ := Option.ite_none_left_eq_some.mp h
    cases h
    exact .inl ⟨tuples, eq_false_of_ne_true hmore, rfl, rfl⟩
  | exhausted =>
    cases h
    exact .inr (.inl ⟨rfl, rfl⟩)
  | refused =>
    obtain ⟨hrefused, h⟩ := Option.ite_none_right_eq_some.mp h
    cases h
    exact .inr (.inr ⟨by simpa using hrefused, rfl, rfl⟩)

theorem storeTuple_cases (h : storeTuple pc pc' t a d = some (d', target)) :
    d.left t = 0 ∧ d' = d ∧ target = pc' ∨
      d' = { d with left := update d.left t (d.left t - 1) } ∧ target = pc := by
  unfold storeTuple at h
  split at h
  case isTrue hleft =>
    cases h
    exact .inl ⟨hleft, rfl, rfl⟩
  · cases h
    exact .inr ⟨rfl, rfl⟩

theorem createBlock_cases (h : createBlock pc pc' t a d = some (d', target)) :
    a = .refused ∧ d' = d ∧ target = pc ∨ d' = d ∧ target = pc' := by
  cases h
  by_cases ha : a = .refused
  · exact .inl ⟨ha, rfl, if_pos ha⟩
  · exact .inr ⟨rfl, if_neg ha⟩

theorem isExpandedThreadCallBack_cases
    (h : isExpandedThreadCallBack pc pc' t a d = some (d', target)) :
    d.calledBack t = true ∧ d' = d ∧ target = pc ∨
      d.calledBack t = false ∧ d' = d ∧ target = pc' := by
  cases h
  cases hc : d.calledBack t
  · exact .inr ⟨rfl, rfl, rfl⟩
  · exact .inl ⟨rfl, rfl, rfl⟩

theorem callNext_cases (h : callNext pc pc' t a d = some (d', target)) :
    d' = d ∧ target = pc ∨ d' = d ∧ target = pc' := by
  cases h
  by_cases ha : a = .refused
  · exact .inl ⟨rfl, if_pos ha⟩
  · exact .inr ⟨rfl, if_neg ha⟩

end Targets

theorem hashJoin_act {pc next : HashJoinPc} {f : Act HashJoinPc} {t : ℕ} {a : Answer}
    {d d' : Shared} (hcode : hashJoin.code pc = .act f) (hf : f t a d = some (d', next)) :
    HashJoinAct t a d pc d' next := by
  cases pc <;> cases hcode
  case entry =>
    obtain ⟨h, rfl, rfl⟩ | ⟨h, rfl, rfl⟩ := returnIfCancelled_cases hf
    exacts [.refuse h, .enter h]
  case trySection =>
    obtain ⟨h, rfl, rfl⟩ | ⟨h, rfl, rfl⟩ := tryEntry_cases hf
    exacts [.win h, .lose h]
  case createTable =>
    cases hf
    exact .create
  case openLeft =>
    cases hf
    exact .openLeft
  case checkLeft =>
    obtain ⟨h, rfl, rfl⟩ | ⟨h, rfl, rfl⟩ := returnIfCancelled_cases hf
    exacts [.abandonLeft h, .checkLeft h]
  case askLeft =>
    obtain ⟨tuples, h, rfl, rfl⟩ | ⟨rfl, rfl⟩ | ⟨h, rfl, rfl⟩ := childNext_cases hf
    exacts [.block tuples h, .exhausted, .turnedAway h]
  case checkBlock =>
    obtain ⟨h, rfl, rfl⟩ | ⟨h, rfl, rfl⟩ := returnIfCancelled_cases hf
    exacts [.abandonBlock h, .checkBlock h]
  case insert =>
    obtain ⟨h, rfl, rfl⟩ | ⟨rfl, rfl⟩ := storeTuple_cases hf
    exacts [.inserted h, .insert]
  case testCallBack =>
    obtain ⟨h, rfl, rfl⟩ | ⟨h, rfl, rfl⟩ := isExpandedThreadCallBack_cases hf
    exacts [.calledBack h, .keepsOn h]
  case openRight =>
    obtain ⟨rfl, rfl⟩ | ⟨rfl, rfl⟩ := callNext_cases hf
    exacts [.noNext, .openRight]
  case checkNext =>
    obtain ⟨h, rfl, rfl⟩ | ⟨h, rfl, rfl⟩ := returnIfCancelled_cases hf
    exacts [.cancelNext h, .checkNext h]
  case probe =>
    obtain ⟨rfl, rfl⟩ | ⟨rfl, rfl⟩ := callNext_cases hf
    exacts [.lastProbe, .probe]

theorem sort_act {pc next : SortPc} {f : Act SortPc} {t : ℕ} {a : Answer} {d d' : Shared}
    (hcode : sort.code pc = .act f) (hf : f t a d = some (d', next)) :
    SortAct t a d pc d' next := by
  cases pc <;> cases hcode
  case entry =>
    obtain ⟨h, rfl, rfl⟩ | ⟨h, rfl, rfl⟩ := returnIfCancelled_cases hf
    exacts [.refuse h, .enter h]
  case trySection =>
    obtain ⟨h, rfl, rfl⟩ | ⟨h, rfl, rfl⟩ := tryEntry_cases hf
    exacts [.win h, .lose h]
  case clear =>
    cases hf
    exact .clear
  case createFirst =>
    obtain ⟨h, rfl, rfl⟩ | ⟨rfl, rfl⟩ := createBlock_cases hf
    exacts [.failFirst h, .createFirst]
  case openChild =>
    cases hf
    exact .openChild
  case checkChild =>
    obtain ⟨h, rfl, rfl⟩ | ⟨h, rfl, rfl⟩ := returnIfCancelled_cases hf
    exacts [.abandonChild h, .checkChild h]
  case askChild =>
    obtain ⟨tuples, h, rfl, rfl⟩ | ⟨rfl, rfl⟩ | ⟨h, rfl, rfl⟩ := childNext_cases hf
    exacts [.block tuples h, .exhausted, .turnedAway h]
  case checkBlock =>
    obtain ⟨h, rfl, rfl⟩ | ⟨h, rfl, rfl⟩ := returnIfCancelled_cases hf
    exacts [.abandonBlock h, .checkBlock h]
  case append =>
    obtain ⟨h, rfl, rfl⟩ | ⟨rfl, rfl⟩ := storeTuple_cases hf
    exacts [.appended h, .append]
  case createAnother =>
    obtain ⟨h, rfl, rfl⟩ | ⟨rfl, rfl⟩ := createBlock_cases hf
    exacts [.failAnother h, .createAnother]
  case appendAll =>
    cases hf
    exact .appendAll
  case tryOrder =>
    obtain ⟨h, rfl, rfl⟩ | ⟨h, rfl, rfl⟩ := tryEntry_cases hf
    exacts [.order h, .leaveOrder h]
  case prepare =>
    cases hf
    exact .prepare
  case checkOrder =>
    obtain ⟨h, rfl, rfl⟩ | ⟨h, rfl, rfl⟩ := returnIfCancelled_cases hf
    exacts [.abandonOrder h, .checkOrder h]
  case order =>
    cases hf
    exact .ordered

/-! ### The barriers are used in order -/

theorem hashJoin_annotated : Annotated hashJoin HashJoinPc.done where
  start := atBarriers_out
  register := by
    intro pc b next hcode
    cases pc <;> cases hcode
    case registerFirst => exact ⟨rfl, (update_first ..).symm⟩
    case registerSecond => exact ⟨rfl, (update_second ..).symm⟩
  unregister := by
    intro pc b next hcode
    cases pc <;> cases hcode
    exact ⟨rfl, (update_second ..).symm⟩
  arrive := by
    intro pc b next hcode
    cases pc <;> cases hcode
    case arriveFirst => exact ⟨rfl, (update_first ..).symm⟩
    case arriveSecond => exact ⟨rfl, (update_second ..).symm⟩
  act := by
    intro pc f t a d d' next hcode hf
    cases hashJoin_act hcode hf <;> rfl

theorem sort_annotated : Annotated sort SortPc.done where
  start := atBarriers_out
  register := by
    intro pc b next hcode
    cases pc <;> cases hcode
    case registerFirst => exact ⟨rfl, (update_first ..).symm⟩
    case registerSecond => exact ⟨rfl, (update_second ..).symm⟩
    case registerThird => exact ⟨rfl, (update_third ..).symm⟩
  unregister := by
    intro pc b next hcode
    cases pc <;> cases hcode
  arrive := by
    intro pc b next hcode
    cases pc <;> cases hcode
    case arriveFirst => exact ⟨rfl, (update_first ..).symm⟩
    case arriveSecond => exact ⟨rfl, (update_second ..).symm⟩
    case arriveThird => exact ⟨rfl, (update_third ..).symm⟩
  act := by
    intro pc f t a d d' next hcode hf
    cases sort_act hcode hf <;> rfl

/-! ### No thread is stranded -/

def HashJoinPc.tests : HashJoinPc → Bool
  | .checkLeft | .checkBlock => true
  | _ => false

def SortPc.tests : SortPc → Bool
  | .checkChild | .checkBlock | .checkOrder => true
  | _ => false

def SortPc.creates : SortPc → Bool
  | .createFirst | .createAnother => true
  | _ => false

def hashJoinGoesOn (s : State Shared HashJoinPc) : Event Answer Signal → Prop
  | .exec t _ => ∀ pc, s.control t = .run pc → pc.tests = true → s.data.cancelled = false
  | _ => True

/-- A thread that has registered does not find the statement cancelled, and can create its blocks,
before its last arrival. -/
def sortGoesOn (s : State Shared SortPc) : Event Answer Signal → Prop
  | .exec t a => ∀ pc, s.control t = .run pc →
    (pc.tests = true → s.data.cancelled = false) ∧ (pc.creates = true → a ≠ .refused)
  | _ => True

theorem hashJoin_not_abandoned {n : ℕ} {s : State Shared HashJoinPc}
    (h : Runs.Reaches (StepWhen hashJoin n hashJoinGoesOn) (initial fresh) s) :
    ∀ t, (s.control t).All fun pc => pc ≠ .abandoned := by
  refine Runs.invariant (I := fun s => ∀ t, (s.control t).All fun pc => pc ≠ .abandoned)
    (fun s s' hs ⟨e, hok, hstep⟩ => ?_) h fun _ => trivial
  refine all_move hs (move_of_step hstep) (by decide) (fun {t pc next} _ hnext => ?_)
    fun {t a pc f next} he hc hcode hf => ?_
  · cases pc <;> cases hnext <;> decide
  · subst he
    generalize s'.data = d' at hf
    have hgoes : pc.tests = true → s.data.cancelled = false := hok pc hc
    cases hashJoin_act hcode hf with
    | abandonLeft hcancelled | abandonBlock hcancelled =>
      cases hcancelled.symm.trans (hgoes rfl)
    | _ => decide

theorem sort_not_abandoned {n : ℕ} {s : State Shared SortPc}
    (h : Runs.Reaches (StepWhen sort n sortGoesOn) (initial fresh) s) :
    ∀ t, (s.control t).All fun pc => pc ≠ .abandonedSecond ∧ pc ≠ .abandonedThird := by
  refine Runs.invariant
    (I := fun s => ∀ t, (s.control t).All fun pc => pc ≠ .abandonedSecond ∧ pc ≠ .abandonedThird)
    (fun s s' hs ⟨e, hok, hstep⟩ => ?_) h fun _ => trivial
  refine all_move hs (move_of_step hstep) (by decide) (fun {t pc next} _ hnext => ?_)
    fun {t a pc f next} he hc hcode hf => ?_
  · cases pc <;> cases hnext <;> decide
  · subst he
    generalize s'.data = d' at hf
    obtain ⟨htests, hcreates⟩ : (pc.tests = true → s.data.cancelled = false) ∧
      (pc.creates = true → a ≠ .refused) := hok pc hc
    cases sort_act hcode hf with
    | abandonChild hcancelled | abandonBlock hcancelled | abandonOrder hcancelled =>
      cases hcancelled.symm.trans (htests rfl)
    | failFirst hrefused | failAnother hrefused => exact absurd hrefused (hcreates rfl)
    | _ => decide

theorem hashJoin_exit {pc : HashJoinPc} (h : pc ≠ .abandoned) (hexit : hashJoin.code pc = .exit)
    (b : ℕ) : pc.done b ≠ .registered := by
  cases pc <;> cases hexit
  case abandoned => exact absurd rfl h
  case refused | calledBack | finished => exact atBarriers_ne_registered (by decide) b

theorem sort_exit {pc : SortPc} (h : pc ≠ .abandonedSecond ∧ pc ≠ .abandonedThird)
    (hexit : sort.code pc = .exit) (b : ℕ) : pc.done b ≠ .registered := by
  cases pc <;> cases hexit
  case abandonedSecond => exact absurd rfl h.1
  case abandonedThird => exact absurd rfl h.2
  case refused | finished => exact atBarriers_ne_registered (by decide) b

/-- **No thread is stranded**, if none is cancelled between registration and last arrival. -/
theorem no_thread_stranded (n : ℕ) :
    (∀ s, Runs.Reaches (StepWhen hashJoin n hashJoinGoesOn) (initial fresh) s →
      ∀ t, ¬Stranded hashJoin s t) ∧
    ∀ s, Runs.Reaches (StepWhen sort n sortGoesOn) (initial fresh) s → ∀ t, ¬Stranded sort s t := by
  constructor
  · intro s h
    exact not_stranded (Counted.of_reaches hashJoin_annotated h) fun t =>
      (hashJoin_not_abandoned h t).mono fun pc hpc => hashJoin_exit hpc
  · intro s h
    exact not_stranded (Counted.of_reaches sort_annotated h) fun t =>
      (sort_not_abandoned h t).mono fun pc hpc => sort_exit hpc

/-! ### Two threads -/

def steps (t k : ℕ) : List (Event Answer Signal) := List.replicate k (.exec t .exhausted)

def quiet (s : State Shared Pc) : Event Answer Signal → Bool
  | .exec _ a => !s.data.cancelled && a != .refused
  | _ => true

theorem hashJoinGoesOn_of_quiet (s : State Shared HashJoinPc) (e : Event Answer Signal)
    (h : quiet s e = true) : hashJoinGoesOn s e := by
  cases e with
  | exec t a =>
    simp only [quiet, Bool.and_eq_true, Bool.not_eq_true'] at h
    exact fun _ _ _ => h.1
  | start | wake | world => trivial

theorem sortGoesOn_of_quiet (s : State Shared SortPc) (e : Event Answer Signal)
    (h : quiet s e = true) : sortGoesOn s e := by
  cases e with
  | exec t a =>
    simp only [quiet, Bool.and_eq_true, Bool.not_eq_true', bne_iff_ne] at h
    exact fun _ _ => ⟨fun _ => h.1, fun _ => h.2⟩
  | start | wake | world => trivial

def oneAtFirst : List (Event Answer Signal) :=
  [.start 0, .start 1] ++ steps 0 6 ++ steps 1 5 ++ steps 0 1

theorem waits_for_the_other :
    (∃ s, Runs.Reaches (StepWhen hashJoin 2 hashJoinGoesOn) (initial fresh) s ∧
      s.control 0 = .wait 0 .checkLeft ∧ ¬Stranded hashJoin s 0) ∧
    ∃ s, Runs.Reaches (StepWhen sort 2 sortGoesOn) (initial fresh) s ∧
      s.control 0 = .wait 0 .createFirst ∧ ¬Stranded sort s 0 := by
  have hjoin : (runWhen hashJoin 2 quiet (initial fresh) oneAtFirst).map (·.control 0) =
    some (.wait 0 .checkLeft) := by decide
  have hsort : (runWhen sort 2 quiet (initial fresh) oneAtFirst).map (·.control 0) =
    some (.wait 0 .createFirst) := by decide
  obtain ⟨s, hs, hc⟩ := Option.map_eq_some_iff.mp hjoin
  obtain ⟨s', hs', hc'⟩ := Option.map_eq_some_iff.mp hsort
  have hreach := reaches_of_runWhen hashJoinGoesOn_of_quiet hs
  have hreach' := reaches_of_runWhen sortGoesOn_of_quiet hs'
  exact ⟨⟨s, hreach, hc, (no_thread_stranded 2).1 s hreach 0⟩,
    ⟨s', hreach', hc', (no_thread_stranded 2).2 s' hreach' 0⟩⟩

/-- One thread of a hash join waits at the second barrier when the statement is cancelled and the
other one comes from the first. -/
def cancelledJoin : List (Event Answer Signal) :=
  oneAtFirst ++ steps 1 1 ++ steps 0 4 ++ [.world .cancel] ++ steps 1 1

/-- One thread of a sort waits at the third barrier when the statement is cancelled and the other
one is about to sort. -/
def cancelledSort : List (Event Answer Signal) :=
  oneAtFirst ++ steps 1 1 ++ steps 0 6 ++ steps 1 7 ++ steps 0 2 ++ [.world .cancel] ++ steps 1 2

/-- **Cancellation strands threads**: a thread returns without unregistering. -/
theorem stranded_by_cancellation :
    (∃ s, Runs.Reaches (Step hashJoin 2) (initial fresh) s ∧ Stranded hashJoin s 0) ∧
    ∃ s, Runs.Reaches (Step sort 2) (initial fresh) s ∧ Stranded sort s 0 := by
  have hjoin : (runWhen hashJoin 2 (fun _ _ => true) (initial fresh) cancelledJoin).map
      (fun s => (s.control 0, s.control 1)) = some (.wait 1 .openRight, .run .abandoned) := by
    decide
  have hsort : (runWhen sort 2 (fun _ _ => true) (initial fresh) cancelledSort).map
      (fun s => (s.control 0, s.control 1)) = some (.wait 2 .finished, .run .abandonedThird) := by
    decide
  obtain ⟨s, hs, hc⟩ := Option.map_eq_some_iff.mp hjoin
  obtain ⟨s', hs', hc'⟩ := Option.map_eq_some_iff.mp hsort
  obtain ⟨hwait, hreturned⟩ := Prod.mk.inj hc
  obtain ⟨hwait', hreturned'⟩ := Prod.mk.inj hc'
  have hreach : Runs.Reaches (Step hashJoin 2) (initial fresh) s :=
    reaches_of_runWhen (fun _ _ _ => trivial) hs
  have hreach' : Runs.Reaches (Step sort 2) (initial fresh) s' :=
    reaches_of_runWhen (fun _ _ _ => trivial) hs'
  exact ⟨⟨s, hreach, stranded_of_returned (Counted.of_reaches hashJoin_annotated hreach) hwait
      hreturned rfl⟩,
    ⟨s', hreach', stranded_of_returned (Counted.of_reaches sort_annotated hreach') hwait'
      hreturned' rfl⟩⟩

end OpenPrograms
