/-
Which chunk `FreeChunkLRU` evicts.  `ApplyChunk` makes all chunks in memory older and its own new;
`GetChunk` leaves the lifetimes as they are.  `History` adds when each chunk was last asked for.

* **`Lru.step`** — the lifetimes order the chunks by their last use as long as they fit in an `int`;
* **`lru_evicts_least_recent`** — then a chunk that is evicted was used no later than any other;
* **`read_chunk_evicted`** — a chunk that is only read does not get younger.
-/
import ClaimsDB.MemoryStore

namespace Storage

open Function (update update_of_ne update_self)
open MemoryChunkStore List

variable {P B : Type} [DecidableEq P]

structure History (P B : Type) where
  store : MemoryChunkStore P B
  clock : ℕ
  lastUse : ChunkID P → ℕ

def History.initial (limit : ℕ) (h : limit + chunkSize < 2 ^ 64) : History P B :=
  ⟨(MemoryChunkStore.new limit h).setFreeAlgorithm 1, 0, fun _ => 0⟩

inductive UseOp (P B : Type)
  | applyChunk (c : ChunkID P) (env : Environment P B)
  | getChunk (c : ChunkID P)

def UseOp.chunk : UseOp P B → ChunkID P
  | .applyChunk c _ => c
  | .getChunk c => c

def UseOp.run (s : History P B) (op : UseOp P B) : Run (History P B) := do
  let store ← match op with
    | .applyChunk c env => (s.store.applyChunk c env).map (·.1)
    | .getChunk _ => .ok s.store
  return ⟨store, s.clock + 1, update s.lastUse op.chunk (s.clock + 1)⟩

/-- `WasteTime` does not make a `lifetime_` overflow, and only the newest chunk is read. -/
def UseOp.allowed (s : History P B) : UseOp P B → Prop
  | .applyChunk _ _ => ∀ e ∈ s.store.chunkList, e.2.lifetime < 2 ^ 31 - 1
  | .getChunk c => ∀ e ∈ s.store.chunkList, e.1 = c → ∀ x ∈ s.store.chunkList, x.1 ≠ c →
      e.2.lifetime < x.2.lifetime

def UsedStep (s s' : History P B) : Prop := ∃ op : UseOp P B, op.allowed s ∧ op.run s = .ok s'

def Aged (l : ChunkList P B) (lastUse : ChunkID P → ℕ) : Prop :=
  ∀ e ∈ l, ∀ x ∈ l, x.2.lifetime ≤ e.2.lifetime → lastUse e.1 ≤ lastUse x.1

structure Lru (s : History P B) : Prop where
  policy : s.store.fc = some .lru
  past : ∀ c, s.lastUse c ≤ s.clock
  aged : Aged s.store.chunkList s.lastUse
  nonneg : ∀ e ∈ s.store.chunkList, 0 ≤ e.2.lifetime

section

variable {s s' : History P B} {l : ChunkList P B} {c : ChunkID P} {env : Environment P B}
  {m m' : MemoryChunkStore P B}

omit [DecidableEq P] in
theorem foldl_lifetime_le : ∀ (l : ChunkList P B) (e : ChunkID P × HdfsInMemoryChunk B),
    ∀ x ∈ e :: l, x.2.lifetime ≤ (l.foldl (fun target mei =>
      if target.2.lifetime ≤ mei.2.lifetime then mei else target) e).2.lifetime
  | [], e, x, hx => by rw [mem_singleton.1 hx]; exact le_rfl
  | y :: l, e, x, hx => by
    rw [foldl_cons]
    have ih := foldl_lifetime_le l (if e.2.lifetime ≤ y.2.lifetime then y else e)
    have hfirst := ih _ mem_cons_self
    rcases mem_cons.1 hx with rfl | hx
    · refine le_trans ?_ hfirst
      split_ifs with h
      · exact h
      · exact le_rfl
    · rcases mem_cons.1 hx with rfl | hx
      · refine le_trans ?_ hfirst
        split_ifs with h
        · exact le_rfl
        · exact (not_le.1 h).le
      · exact ih x (mem_cons_of_mem _ hx)

omit [DecidableEq P] in
theorem lruTarget_oldest (h : lruTarget l = some c) :
    ∃ e ∈ l, e.1 = c ∧ ∀ x ∈ l, x.2.lifetime ≤ e.2.lifetime := by
  cases l with
  | nil => cases h
  | cons e l =>
    refine ⟨_, foldl_lifetime_mem mem_cons_self fun x hx => hx, Option.some.inj h,
      fun x hx => ?_⟩
    exact foldl_lifetime_le (e :: l) e x (mem_cons_of_mem _ hx)

theorem wayOfFreeChunk_lru (hfc : m.fc = some .lru) (h : m.wayOfFreeChunk env = .ok m') :
    ∃ c, m' = m.erase c ∧ ∃ e ∈ m.chunkList, e.1 = c ∧
      ∀ x ∈ m.chunkList, x.2.lifetime ≤ e.2.lifetime := by
  have hmem : ∀ x, x ∈ env.iterate m.chunkList ↔ x ∈ m.chunkList := fun x =>
    (env.iterate_perm m.chunkList).mem_iff
  rw [wayOfFreeChunk, hfc] at h
  dsimp only at h
  split at h
  · cases h
  · rename_i c hc
    obtain ⟨e, he, hec, hall⟩ := lruTarget_oldest hc
    exact ⟨c, (Except.ok.inj h).symm, e, (hmem e).1 he, hec, fun x hx => hall x ((hmem x).2 hx)⟩

theorem applyChunk_lru (hfc : m.fc = some .lru) (hc : c ∉ m.chunks) {r : Bool}
    (h : m.applyChunk c env = .ok (m', r)) :
    m'.fc = some .lru ∧ ∃ l, (l = (m.isExist c).chunkList ∨ ∃ victim,
        l = (m.isExist c).chunkList.eraseP (·.1 = victim) ∧
        ∃ e ∈ (m.isExist c).chunkList, e.1 = victim ∧
          ∀ x ∈ (m.isExist c).chunkList, x.2.lifetime ≤ e.2.lifetime) ∧
      (m'.chunkList = l ∨ m'.chunkList = l ++ [(c, ⟨[], chunkSize, 0⟩)]) := by
  rw [applyChunk, if_neg (fun hh => hc (holds_iff.1 hh))] at h
  obtain ⟨m₁, hroom, h⟩ := Run.bind_eq_ok h
  have hm₁ : m₁.fc = some .lru ∧ (m₁.chunkList = (m.isExist c).chunkList ∨ ∃ victim,
      m₁.chunkList = (m.isExist c).chunkList.eraseP (·.1 = victim) ∧
      ∃ e ∈ (m.isExist c).chunkList, e.1 = victim ∧
        ∀ x ∈ (m.isExist c).chunkList, x.2.lifetime ≤ e.2.lifetime) := by
    rw [makeRoom] at hroom
    split at hroom
    · obtain rfl := Except.ok.inj hroom
      exact ⟨hfc, .inl rfl⟩
    · obtain ⟨victim, rfl, he⟩ := wayOfFreeChunk_lru (show (m.isExist c).fc = some .lru from hfc) hroom
      exact ⟨hfc, .inr ⟨victim, rfl, he⟩⟩
  refine ⟨?_, m₁.chunkList, hm₁.2, ?_⟩
  all_goals
    split_ifs at h
    all_goals obtain ⟨rfl, -⟩ := Prod.mk.inj (Except.ok.inj h)
  · exact hm₁.1
  · exact hm₁.1
  · exact .inr rfl
  · exact .inl rfl

theorem mem_isExist {y : ChunkID P × HdfsInMemoryChunk B} (hy : y ∈ (m.isExist c).chunkList) :
    ∃ e ∈ m.chunkList, y.1 = e.1 ∧
      y.2.lifetime = if e.1 = c then 0 else intInc e.2.lifetime := by
  obtain ⟨e', he', rfl⟩ := mem_map.1 hy
  obtain ⟨e, he, rfl⟩ := mem_map.1 he'
  refine ⟨e, he, ?_⟩
  dsimp only
  split_ifs <;> exact ⟨rfl, rfl⟩

theorem isExist_mem {e : ChunkID P × HdfsInMemoryChunk B} (he : e ∈ m.chunkList) (hne : e.1 ≠ c) :
    (e.1, { e.2 with lifetime := intInc e.2.lifetime }) ∈ (m.isExist c).chunkList := by
  refine mem_map.2 ⟨_, mem_map_of_mem he, ?_⟩
  exact if_neg hne

/-- What is in memory after `ApplyChunk` for `c`: that chunk, and chunks that have got older. -/
theorem Lru.touch (h : Lru s) {l : ChunkList P B}
    (hl : ∀ y ∈ l, y.1 = c ∧ y.2.lifetime = 0 ∨ y.1 ≠ c ∧ ∃ e ∈ s.store.chunkList, y.1 = e.1 ∧
      y.2.lifetime = e.2.lifetime + 1) :
    Aged l (update s.lastUse c (s.clock + 1)) ∧ ∀ y ∈ l, 0 ≤ y.2.lifetime := by
  have hnonneg : ∀ y ∈ l, y.1 ≠ c → 0 < y.2.lifetime := by
    intro y hy hyc
    obtain ⟨-, e, he, -, hlt⟩ := (hl y hy).resolve_left fun hc => hyc hc.1
    have := h.nonneg e he
    omega
  refine ⟨fun y hy x hx hle => ?_, fun y hy => ?_⟩
  rotate_left
  · rcases hl y hy with ⟨-, hy0⟩ | ⟨hyc, -⟩
    · exact hy0.ge
    · exact (hnonneg y hy hyc).le
  rcases hl y hy with ⟨rfl, hy0⟩ | ⟨hyc, e, he, hye, hyl⟩ <;>
    rcases hl x hx with ⟨hxc, hx0⟩ | ⟨hxc, f, hf, hxf, hxl⟩
  · rw [hxc]
  · have := hnonneg x hx hxc
    omega
  · rw [hxc, update_self, update_of_ne hyc]
    exact (h.past _).trans (Nat.le_succ _)
  · rw [update_of_ne hyc, update_of_ne hxc, hye, hxf]
    exact h.aged e he f hf (by omega)

theorem Lru.step (h : Lru s) (hs : UsedStep s s') : Lru s' := by
  obtain ⟨op, hallowed, hrun⟩ := hs
  have hpast : ∀ c d, update s.lastUse c (s.clock + 1) d ≤ s.clock + 1 := by
    intro c d
    rcases eq_or_ne d c with rfl | hne
    · rw [update_self]
    · rw [update_of_ne hne]
      exact (h.past d).trans (Nat.le_succ _)
  cases op with
  | getChunk c =>
    obtain rfl := Except.ok.inj hrun
    refine ⟨h.policy, hpast c, fun e he x hx hle => ?_, h.nonneg⟩
    change update s.lastUse c (s.clock + 1) e.1 ≤
      update s.lastUse c (s.clock + 1) x.1
    rcases eq_or_ne e.1 c with hec | hec <;> rcases eq_or_ne x.1 c with hxc | hxc
    · rw [hec, hxc]
    · exact absurd (hallowed e he hec x hx hxc) (not_lt.2 hle)
    · rw [hxc, update_self, update_of_ne hec]
      exact (h.past _).trans (Nat.le_succ _)
    · rw [update_of_ne hec, update_of_ne hxc]
      exact h.aged e he x hx hle
  | applyChunk c env =>
    obtain ⟨store, hstore, hrun⟩ := Run.bind_eq_ok hrun
    obtain rfl := Except.ok.inj hrun
    obtain ⟨⟨m', r⟩, happ, rfl⟩ := Run.map_eq_ok hstore
    have hold : ∀ y ∈ (s.store.isExist c).chunkList, y.1 = c ∧ y.2.lifetime = 0 ∨ y.1 ≠ c ∧
        ∃ e ∈ s.store.chunkList, y.1 = e.1 ∧ y.2.lifetime = e.2.lifetime + 1 := by
      intro y hy
      obtain ⟨e, he, hye, hlt⟩ := mem_isExist hy
      split_ifs at hlt with hec
      · exact .inl ⟨hye.trans hec, hlt⟩
      · exact .inr ⟨hye ▸ hec, e, he, hye, hlt.trans (intInc_eq (h.nonneg e he) (hallowed e he))⟩
    by_cases hc : c ∈ s.store.chunks
    · rw [MemoryChunkStore.applyChunk, if_pos (holds_iff.2 hc)] at happ
      obtain ⟨rfl, -⟩ := Prod.mk.inj (Except.ok.inj happ)
      exact ⟨h.policy, hpast c, (h.touch hold).1, (h.touch hold).2⟩
    · obtain ⟨hfc, l, hl, hm'⟩ := applyChunk_lru h.policy hc happ
      have hsub : ∀ y ∈ l, y ∈ (s.store.isExist c).chunkList := by
        rcases hl with rfl | ⟨victim, rfl, -⟩
        · exact fun _ hy => hy
        · exact fun _ hy => mem_of_mem_eraseP hy
      have hnew : ∀ y ∈ m'.chunkList, y.1 = c ∧ y.2.lifetime = 0 ∨ y.1 ≠ c ∧
          ∃ e ∈ s.store.chunkList, y.1 = e.1 ∧ y.2.lifetime = e.2.lifetime + 1 := by
        intro y hy
        rcases hm' with hm' | hm'
        · exact hold y (hsub y (hm' ▸ hy))
        · rcases mem_append.1 (show y ∈ _ from hm' ▸ hy) with hy | hy
          · exact hold y (hsub y hy)
          · rw [mem_singleton.1 hy]
            exact .inl ⟨rfl, rfl⟩
      exact ⟨hfc, hpast c, (h.touch hnew).1, (h.touch hnew).2⟩

end

/-- **LRU**, in every run in which only the newest chunk in memory is read and no `lifetime_`
overflows. -/
theorem lru_evicts_least_recent {limit : ℕ} (hlimit : limit + chunkSize < 2 ^ 64)
    {s : History P B} (h : Runs.Reaches UsedStep (.initial limit hlimit) s) {c : ChunkID P}
    {env : Environment P B} {m' : MemoryChunkStore P B} {r : Bool}
    (hallowed : (UseOp.applyChunk c env).allowed s)
    (happ : s.store.applyChunk c env = .ok (m', r)) {victim : ChunkID P}
    (hin : victim ∈ s.store.chunks) (hout : victim ∉ m'.chunks) :
    ∀ d ∈ s.store.chunks, s.lastUse victim ≤ s.lastUse d := by
  have hlru : Lru s := Runs.invariant (I := Lru) (fun _ _ hi hs => hi.step hs) h
    ⟨rfl, fun _ => le_rfl, fun _ he => (by cases he), fun _ he => (by cases he)⟩
  by_cases hc : c ∈ s.store.chunks
  · rw [applyChunk, if_pos (holds_iff.2 hc)] at happ
    obtain ⟨rfl, -⟩ := Prod.mk.inj (Except.ok.inj happ)
    exact absurd (by rwa [isExist_chunks]) hout
  obtain ⟨-, l, hl, hm'⟩ := applyChunk_lru hlru.policy hc happ
  -- what is left in the list is left in memory
  have hkept : ∀ y ∈ l, y.1 ≠ victim := by
    rintro y hy rfl
    refine hout (mem_map_of_mem (f := Prod.fst) ?_)
    rcases hm' with hm' | hm' <;> rw [hm']
    · exact hy
    · exact mem_append_left _ hy
  have hne : ∀ d ∈ s.store.chunks, d ≠ c := fun d hd heq => hc (heq ▸ hd)
  obtain ⟨v, hv, rfl⟩ := mem_map.1 hin
  have hv' := isExist_mem hv (hne _ hin)
  rcases hl with rfl | ⟨target, rfl, e, he, htarget, hold⟩
  · exact (hkept _ hv' rfl).elim
  · have hvt : v.1 = target := by
      by_contra hvt
      exact hkept _ ((mem_eraseP_of_neg (by simpa using hvt)).2 hv') rfl
    intro d hd
    obtain ⟨x, hx, rfl⟩ := mem_map.1 hd
    obtain ⟨f, hf, hef, hlt⟩ := mem_isExist he
    have hfc : f.1 ≠ c := hne _ (mem_map_of_mem hf)
    rw [if_neg hfc, intInc_eq (hlru.nonneg f hf) (hallowed f hf)] at hlt
    have hle := hold _ (isExist_mem hx (hne _ hd))
    have hfv : f.1 = v.1 := by rw [hvt, ← htarget, hef]
    rw [← hfv]
    refine hlru.aged f hf x hx ?_
    simp only [intInc_eq (hlru.nonneg x hx) (hallowed x hx)] at hle
    omega

theorem agedChunks_fit : 2 * chunkSize + chunkSize < 2 ^ 64 := by
  simp [chunkSize]

def agedChunks : History ℕ ℕ := .initial (2 * chunkSize) agedChunks_fit

/-- `ApplyChunk` with memory enough. -/
def applyFor (k : ℕ) : UseOp ℕ ℕ := .applyChunk ⟨0, k⟩ (.withMemory (2 ^ 40) true)

def evicted (s : History ℕ ℕ) (k victim : ℕ) : Bool :=
  match s.store.applyChunk ⟨0, k⟩ (.withMemory (2 ^ 40) true) with
  | .ok (m', _) => s.store.holds ⟨0, victim⟩ && !m'.holds ⟨0, victim⟩
  | .error _ => false

theorem exists_of_evicted {s : History ℕ ℕ} {k victim : ℕ} (h : evicted s k victim = true) :
    ∃ m' r, s.store.applyChunk ⟨0, k⟩ (.withMemory (2 ^ 40) true) = .ok (m', r) ∧
      ⟨0, victim⟩ ∈ s.store.chunks ∧ ⟨0, victim⟩ ∉ m'.chunks := by
  rw [evicted] at h
  split at h
  · rename_i m' r happ
    rw [Bool.and_eq_true, Bool.not_eq_true'] at h
    exact ⟨m', r, happ, holds_iff.1 h.1, fun hmem => by rw [holds_iff.2 hmem] at h; cases h.2⟩
  · cases h

/-- No `lifetime_` is at the end of an `int`. -/
def young (s : History ℕ ℕ) : Bool :=
  s.store.chunkList.all fun e => e.2.lifetime < 2 ^ 31 - 1

theorem allowed_of_young {s : History ℕ ℕ} (h : young s = true) (k : ℕ) :
    (applyFor k).allowed s :=
  fun e he => of_decide_eq_true (all_eq_true.1 h e he)

theorem oldest_chunk_evicted :
    ∃ s : History ℕ ℕ, ∃ m' r, Runs.Reaches UsedStep agedChunks s ∧
      s.store.applyChunk ⟨0, 2⟩ (.withMemory (2 ^ 40) true) = .ok (m', r) ∧
      ⟨0, 0⟩ ∉ m'.chunks ∧ ∀ d ∈ s.store.chunks, s.lastUse ⟨0, 0⟩ ≤ s.lastUse d := by
  obtain ⟨s₁, hs₁, hnext⟩ := Run.map_eq_ok (show
    ((applyFor 0).run agedChunks).map (fun s => (young s, ((applyFor 1).run s).map fun s =>
      (young s, evicted s 2 0))) = .ok (true, .ok (true, true)) by decide +kernel)
  obtain ⟨hyoung₁, hnext⟩ := Prod.mk.inj hnext
  obtain ⟨s, hs, hlast⟩ := Run.map_eq_ok hnext
  obtain ⟨hyoung, hev⟩ := Prod.mk.inj hlast
  have hreach : Runs.Reaches UsedStep agedChunks s :=
    .tail (.single ⟨applyFor 0, allowed_of_young rfl 0, hs₁⟩)
      ⟨applyFor 1, allowed_of_young hyoung₁ 1, hs⟩
  obtain ⟨m', r, happ, hin, hout⟩ := exists_of_evicted hev
  exact ⟨s, m', r, hreach, happ, hout,
    lru_evicts_least_recent agedChunks_fit hreach (allowed_of_young hyoung 2) happ hin hout⟩

/-- Chunks 0 and 1 are loaded, and chunk 0 is read; then chunk 2 takes the place of chunk 0. -/
theorem read_chunk_evicted :
    ∃ s m' r, [applyFor 0, applyFor 1, .getChunk ⟨0, 0⟩].foldlM UseOp.run agedChunks = .ok s ∧
      s.store.applyChunk ⟨0, 2⟩ (.withMemory (2 ^ 40) true) = .ok (m', r) ∧
      ⟨0, 0⟩ ∈ s.store.chunks ∧ ⟨0, 0⟩ ∉ m'.chunks ∧ ⟨0, 1⟩ ∈ s.store.chunks ∧
      s.lastUse ⟨0, 1⟩ < s.lastUse ⟨0, 0⟩ := by
  obtain ⟨s, hrun, hp⟩ := Run.map_eq_ok (show
    ([applyFor 0, applyFor 1, .getChunk ⟨0, 0⟩].foldlM UseOp.run agedChunks).map (fun s =>
      (evicted s 2 0, s.store.holds ⟨0, 1⟩, s.lastUse ⟨0, 1⟩, s.lastUse ⟨0, 0⟩)) =
        .ok (true, true, 2, 3) by decide +kernel)
  obtain ⟨hev, hone, hfirst, hlast⟩ := by simpa only [Prod.mk.injEq] using hp
  obtain ⟨m', r, happ, hin, hout⟩ := exists_of_evicted hev
  exact ⟨s, m', r, hrun, happ, hin, hout, holds_iff.1 hone, by omega⟩

end Storage
