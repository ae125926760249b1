/-
The receiving thread of the exchange merger.

A connection sends its identification, the text `EXCHID` with the number of its exchange, and then
blocks, which arrive in pieces.  A call of `read` asks for the part that is missing; how much it
returns is given with the call.
-/
import ClaimsDB.BlockFormat
import ClaimsDB.Runs

namespace Merger

open List
open Function (update update_of_ne update_self)
open BlockFormat
open Except (ok)

/-! ### Blocks from pieces -/

/-- How a call of `read` on an accepted connection ends: with bytes, with `EAGAIN`, or with
another error, such as `EINTR`. -/
inductive Call
  | bytes (n : ℕ)
  | again
  | fail
  deriving DecidableEq, Repr

/-- The bytes to be read, those before the cursor, and the blocks inserted. -/
structure Connection where
  pending : List UInt8
  got : List UInt8
  inserted : List (List UInt8)
  deriving DecidableEq, Repr

/-- `DeSerialize` of a complete block, and whether it is empty, which means the end. -/
def isEof (r : BlockStreamFix) (block : List UInt8) : Run Bool :=
  if h : block.length < 2 ^ 32 then (r.deSerialize ⟨block, h⟩).map (·.1.empty)
  else .error .outOfBounds

/-- One round of the loop.  `r` is `block_for_deserialization`, of which only the sizes matter, and
of less than 2 ^ 32 - 1 bytes. -/
def receive (r : BlockStreamFix) (s : Connection) : Call → Run Connection
  | .again => .ok s
  -- `done` is set, but the loop goes on with `IncreaseActualSize(-1)`
  | .fail => if s.got = [] then .error .assertFailed else .ok { s with got := s.got.dropLast }
  | .bytes n =>
    let count := min (n + 1) (r.size - s.got.length)
    let got := s.got ++ s.pending.take count
    let pending := s.pending.drop count
    if got.length < r.size then .ok { s with pending, got }
    else do
      let eof ← isEof r got
      return ⟨pending, [], if eof then s.inserted else s.inserted ++ [got]⟩

def receiveAll (r : BlockStreamFix) (stream : List UInt8) (calls : List Call) : Run Connection :=
  calls.foldlM (receive r) ⟨stream, [], []⟩

def isData (r : BlockStreamFix) (block : List UInt8) : Bool :=
  match isEof r block with
  | .ok eof => !eof
  | .error _ => false

/-- Every complete block of the stream passes the assertion of `DeSerialize`. -/
def Sent (r : BlockStreamFix) (stream : List UInt8) : Prop :=
  ∀ k, (k + 1) * r.size ≤ stream.length →
    ∃ eof, isEof r ((stream.drop (k * r.size)).take r.size) = .ok eof

/-- What was read is complete blocks, of which those with tuples were inserted, and a part of the
next one. -/
structure Assembled (r : BlockStreamFix) (stream : List UInt8) (s : Connection)
    (blocks : List (List UInt8)) : Prop where
  stream_eq : stream = blocks.flatten ++ (s.got ++ s.pending)
  complete : ∀ block ∈ blocks, block.length = r.size
  part : s.got.length < r.size
  inserted : s.inserted = blocks.filter (isData r)

/-- The blocks that are inserted are those of the stream however it is cut, and a failing call
leaves the cursor where it is. -/
def Reassembles (r : BlockStreamFix) (stream : List UInt8) (calls : List Call) : Prop :=
  (∃ s blocks, receiveAll r stream calls = .ok s ∧ Assembled r stream s blocks) ∧
    ∀ before call after s, calls = before ++ call :: after → call = .again ∨ call = .fail →
      receiveAll r stream before = .ok s →
        ∃ s', receive r s call = .ok s' ∧ s'.got.length = s.got.length

variable {r : BlockStreamFix} {stream : List UInt8} {s : Connection} {blocks : List (List UInt8)}

theorem length_flatten_of_complete {w : ℕ} (h : ∀ block ∈ blocks, block.length = w) :
    blocks.flatten.length = blocks.length * w := by
  rw [length_flatten, map_congr_left h, map_const', sum_replicate,
    smul_eq_mul]

theorem Assembled.receive (h : Assembled r stream s blocks) (hsent : Sent r stream) {call : Call}
    (hcall : call ≠ .fail) :
    ∃ s' blocks', receive r s call = .ok s' ∧ Assembled r stream s' blocks' := by
  have hpart := h.part
  cases call with
  | again => exact ⟨s, blocks, rfl, h⟩
  | fail => exact absurd rfl hcall
  | bytes n =>
    rw [Merger.receive]
    set count := min (n + 1) (r.size - s.got.length) with hcount
    have hrest : s.pending.take count ++ s.pending.drop count = s.pending :=
      take_append_drop _ _
    have hlen : (s.got ++ s.pending.take count).length ≤ r.size := by
      rw [length_append, length_take]
      omega
    by_cases hlt : (s.got ++ s.pending.take count).length < r.size
    · refine ⟨_, blocks, if_pos hlt, ?_, h.complete, hlt, h.inserted⟩
      simp only [append_assoc, hrest]
      exact h.stream_eq
    · -- the block is the piece of the stream behind the complete ones
      have hblock : (s.got ++ s.pending.take count).length = r.size := by omega
      have hflat := length_flatten_of_complete h.complete
      have hstream : stream =
          blocks.flatten ++ ((s.got ++ s.pending.take count) ++ s.pending.drop count) := by
        rw [append_assoc, hrest]
        exact h.stream_eq
      have hpiece : (stream.drop (blocks.length * r.size)).take r.size =
          s.got ++ s.pending.take count := by
        rw [hstream, ← hflat, drop_left, ← hblock, take_left]
      obtain ⟨eof, heof⟩ := hsent blocks.length (by
        have := congrArg List.length hstream
        rw [length_append, length_append, hflat, hblock] at this
        rw [Nat.succ_mul]
        omega)
      rw [hpiece] at heof
      set block := s.got ++ s.pending.take count
      refine ⟨⟨s.pending.drop count, [], if eof then s.inserted else s.inserted ++ [block]⟩,
        blocks ++ [block], ?_, ?_⟩
      · rw [if_neg hlt, heof]
        rfl
      · refine ⟨?_, ?_, by simp only [length_nil]; omega, ?_⟩
        · rw [flatten_append, flatten_singleton, nil_append, append_assoc]
          exact hstream
        · exact List.forall_mem_append.2 ⟨h.complete, by simpa using hblock⟩
        · have hdata : isData r block = !eof := by rw [isData, heof]
          rw [filter_append, h.inserted, filter_singleton, hdata]
          cases eof <;> simp

theorem receiveAll_assembled (hsize : 0 < r.size) (hsent : Sent r stream) :
    ∀ calls : List Call, .fail ∉ calls →
      ∃ s blocks, receiveAll r stream calls = .ok s ∧ Assembled r stream s blocks := by
  intro calls
  induction calls using List.reverseRecOn with
  | nil =>
    intro _
    exact ⟨⟨stream, [], []⟩, [], rfl, by simp, by simp, hsize, rfl⟩
  | append_singleton calls call ih =>
    intro hnot
    obtain ⟨s, blocks, hs, h⟩ := ih fun hmem => hnot (mem_append_left _ hmem)
    obtain ⟨s', blocks', hs', h'⟩ := h.receive hsent (show call ≠ .fail from fun heq =>
      hnot (heq ▸ mem_append_right _ mem_cons_self))
    refine ⟨s', blocks', ?_, h'⟩
    rw [receiveAll] at hs ⊢
    rw [foldlM_append, hs, Run.bind_ok, foldlM_cons, hs', Run.bind_ok]
    rfl

/-- **Reassembly** is independent of the calls iff none fails but with `EAGAIN`. -/
theorem reassembly_iff (r : BlockStreamFix) (hsize : 0 < r.size) (stream : List UInt8)
    (hsent : Sent r stream) (calls : List Call) :
    Reassembles r stream calls ↔ .fail ∉ calls := by
  constructor
  · rintro ⟨-, hkept⟩ hmem
    -- the first call that fails
    obtain ⟨before, after, hcalls, hbefore⟩ := eq_append_cons_of_mem hmem
    obtain ⟨s, blocks, hs, h⟩ := receiveAll_assembled hsize hsent before hbefore
    obtain ⟨s', hs', hlen⟩ := hkept before .fail after s hcalls (.inr rfl) hs
    rw [receive] at hs'
    split_ifs at hs' with hnil
    obtain rfl := ok.inj hs'
    have hpos : 0 < s.got.length := List.length_pos_iff.2 hnil
    rw [length_dropLast] at hlen
    omega
  · intro hnot
    refine ⟨receiveAll_assembled hsize hsent calls hnot, ?_⟩
    rintro before call after s hcalls (rfl | rfl) hs
    · exact ⟨s, rfl, rfl⟩
    · exact absurd (hcalls ▸ mem_append_right _ mem_cons_self) hnot

theorem one_block_in_pieces :
    Sent (emptyBlock 8 1) [5, 0, 0, 0, 1, 0, 0, 0] ∧
      Reassembles (emptyBlock 8 1) [5, 0, 0, 0, 1, 0, 0, 0]
        [.bytes 0, .again, .bytes 1, .bytes 2, .bytes 9] := by
  have hsent : Sent (emptyBlock 8 1) [5, 0, 0, 0, 1, 0, 0, 0] := by
    intro k hk
    obtain rfl : k = 0 := by
      change (k + 1) * 8 ≤ 8 at hk
      omega
    exact ⟨false, rfl⟩
  exact ⟨hsent, (reassembly_iff _ (by decide) _ hsent _).2 (by decide)⟩

/-- A call is interrupted after three of twelve bytes: the third one is overwritten. -/
theorem byte_overwritten :
    let stream : List UInt8 := [5, 6, 7, 0, 1, 0, 0, 0, 9, 9, 9, 9]
    receiveAll (emptyBlock 8 1) stream [.bytes 2] = .ok ⟨stream.drop 3, [5, 6, 7], []⟩ ∧
      receiveAll (emptyBlock 8 1) stream [.bytes 2, .fail] = .ok ⟨stream.drop 3, [5, 6], []⟩ ∧
      ¬ Reassembles (emptyBlock 8 1) stream [.bytes 2, .fail] ∧
      receiveAll (emptyBlock 8 1) stream [.fail] = .error .assertFailed := by
  refine ⟨rfl, rfl, fun ⟨_, hkept⟩ => ?_, rfl⟩
  obtain ⟨s', hs', hlen⟩ := hkept [.bytes 2] .fail [] _ rfl (.inr rfl) rfl
  obtain rfl := ok.inj hs'
  exact absurd hlen (by decide)

/-! ### Identification -/

/-- `"EXCHID" << exchange_id`, on both sides. -/
def passwd (exchangeId : ℕ) : List Char := "EXCHID".toList ++ Nat.toDigits 10 exchangeId

/-- The exchange of the sender, what is unread of its identification, and what was read. -/
structure Lower where
  sender : ℕ
  pending : List Char
  blockData : List Char
  deriving DecidableEq, Repr

/-- `lower_sock_fd_list_`, the maps of the descriptors, and the connections open and refused. -/
structure State where
  fdList : List ℕ
  fdToId : ℕ → ℕ
  fdToPasswd : ℕ → List Char
  lowers : ℕ → Option Lower
  refused : List ℕ

def State.initial : State := ⟨[], fun _ => 0, fun _ => [], fun _ => none, []⟩

/-- A connection is accepted, `read` is called, or a descriptor is closed. -/
inductive Event
  | connect (fd sender : ℕ)
  | read (fd n : ℕ)
  | hangUp (fd : ℕ)
  deriving DecidableEq, Repr

/-- The rest of the round after `fd` has got the characters `text` of its identification. -/
def verify (exchangeId lowerNum fd : ℕ) (text : List Char) (c : Lower) (s : State) : Run State :=
  let s' := { s with
    fdToPasswd := update s.fdToPasswd fd text
    lowers := update s.lowers fd (some c) }
  if text.length < (passwd exchangeId).length then .ok s'
  else if text = passwd exchangeId then
    if lowerNum < s.fdList.length + 1 then .error .assertFailed
    else .ok { s' with
      fdList := s.fdList ++ [fd]
      fdToId := update s.fdToId fd s.fdList.length }
  else .ok { s' with
    lowers := update s.lowers fd none
    refused := c.sender :: s.refused }

def react (exchangeId lowerNum : ℕ) (s : State) : Event → Run State
  | .connect fd sender =>
    if (s.lowers fd).isSome then .ok s
    else .ok { s with
      fdToPasswd := update s.fdToPasswd fd []
      lowers := update s.lowers fd (some ⟨sender, passwd sender, []⟩) }
  | .hangUp fd => .ok { s with lowers := update s.lowers fd none }
  | .read fd n =>
    match s.lowers fd with
    | none => .ok s
    | some c =>
      if fd ∈ s.fdList then
        let c' := ⟨c.sender, c.pending.drop (n + 1), c.blockData ++ c.pending.take (n + 1)⟩
        .ok { s with lowers := update s.lowers fd (some c') }
      else
        let count := min (n + 1) ((passwd exchangeId).length - (s.fdToPasswd fd).length)
        verify exchangeId lowerNum fd (s.fdToPasswd fd ++ c.pending.take count)
          { c with pending := c.pending.drop count } s

/-- No accepted descriptor again, and no identification that extends the merger's own. -/
def Event.allowed (exchangeId : ℕ) (s : State) : Event → Prop
  | .connect fd sender =>
    fd ∉ s.fdList ∧ (passwd exchangeId <+: passwd sender → sender = exchangeId)
  | _ => True

def AllowedStep (exchangeId lowerNum : ℕ) (s s' : State) : Prop :=
  ∃ e : Event, e.allowed exchangeId s ∧ react exchangeId lowerNum s e = .ok s'

structure Admits (exchangeId lowerNum : ℕ) (s : State) : Prop where
  own : ∀ fd c, s.lowers fd = some c → fd ∈ s.fdList → c.sender = exchangeId
  /-- a sender of the exchange is accepted once its identification has arrived -/
  arrived : ∀ fd c, s.lowers fd = some c → c.sender = exchangeId → c.pending = [] → fd ∈ s.fdList
  refused : exchangeId ∉ s.refused
  data : ∀ fd c, s.lowers fd = some c → c.blockData = []
  container : ∀ fd ∈ s.fdList, s.fdToId fd < lowerNum
  apart : ∀ fd ∈ s.fdList, ∀ fd' ∈ s.fdList, s.fdToId fd = s.fdToId fd' → fd = fd'

/-- A connection that is still to be verified, with the part `text` that is there. -/
structure Waiting (exchangeId : ℕ) (text : List Char) (c : Lower) : Prop where
  text_eq : text ++ c.pending = passwd c.sender
  short : text.length < (passwd exchangeId).length
  data : c.blockData = []
  own : passwd exchangeId <+: passwd c.sender → c.sender = exchangeId

structure Invariant (exchangeId lowerNum : ℕ) (s : State) : Prop where
  waiting : ∀ fd c, s.lowers fd = some c → fd ∉ s.fdList → Waiting exchangeId (s.fdToPasswd fd) c
  accepted : ∀ fd c, s.lowers fd = some c → fd ∈ s.fdList → c = ⟨exchangeId, [], []⟩
  refused : exchangeId ∉ s.refused
  fits : s.fdList.length ≤ lowerNum
  lt : ∀ fd ∈ s.fdList, s.fdToId fd < s.fdList.length
  apart : ∀ fd ∈ s.fdList, ∀ fd' ∈ s.fdList, s.fdToId fd = s.fdToId fd' → fd = fd'

section

variable {m lowerNum fd : ℕ} {s s' : State} {c : Lower}

section

variable (h : Invariant m lowerNum s)

include h

theorem Invariant.admits : Admits m lowerNum s where
  own fd c hc hfd := by rw [h.accepted fd c hc hfd]
  arrived fd c hc hm hp := by
    by_contra hfd
    have hw := h.waiting fd c hc hfd
    have htext := hw.text_eq
    rw [hp, append_nil, hm] at htext
    exact absurd hw.short (by rw [htext]; exact lt_irrefl _)
  refused := h.refused
  data fd c hc := by
    by_cases hfd : fd ∈ s.fdList
    · rw [h.accepted fd c hc hfd]
    · exact (h.waiting fd c hc hfd).data
  container fd hfd := (h.lt fd hfd).trans_le h.fits
  apart := h.apart

theorem Invariant.change (fd : ℕ) (text : List Char)
    (c? : Option Lower)
    (hw : ∀ c, c? = some c → fd ∉ s.fdList → Waiting m text c)
    (ha : ∀ c, c? = some c → fd ∈ s.fdList → c = ⟨m, [], []⟩) :
    Invariant m lowerNum { s with
      fdToPasswd := update s.fdToPasswd fd text
      lowers := update s.lowers fd c? } := by
  refine ⟨fun fd' c' hc hfd' => ?_, fun fd' c' hc hfd' => ?_, h.refused, h.fits, h.lt, h.apart⟩
  · rcases eq_or_ne fd' fd with rfl | hne
    · simp only [update_self] at hc ⊢
      exact hw c' hc hfd'
    · simp only [update_of_ne hne] at hc ⊢
      exact h.waiting fd' c' hc hfd'
  · rcases eq_or_ne fd' fd with rfl | hne
    · simp only [update_self] at hc
      exact ha c' hc hfd'
    · simp only [update_of_ne hne] at hc
      exact h.accepted fd' c' hc hfd'

theorem Invariant.verify (hfd : fd ∉ s.fdList) {text : List Char}
    (htext : text ++ c.pending = passwd c.sender) (hle : text.length ≤ (passwd m).length)
    (hdata : c.blockData = []) (hown : passwd m <+: passwd c.sender → c.sender = m)
    (hs : verify m lowerNum fd text c s = .ok s') : Invariant m lowerNum s' := by
  rw [Merger.verify] at hs
  split_ifs at hs with hshort hsame hfits
  · obtain rfl := ok.inj hs
    exact h.change fd text (some c)
      (fun c' hc _ => Option.some.inj hc ▸ ⟨htext, hshort, hdata, hown⟩)
      fun _ _ hmem => absurd hmem hfd
  · -- accepted, and nothing is left of the identification
    obtain rfl := ok.inj hs
    have hm : c.sender = m := hown ⟨c.pending, by rw [← hsame, htext]⟩
    have hnil : c.pending = [] := by
      have := congrArg List.length htext
      rw [length_append, hm, ← hsame] at this
      exact eq_nil_of_length_eq_zero (by omega)
    obtain rfl : c = ⟨m, [], []⟩ := by
      cases c
      simp_all
    refine ⟨fun fd' c' hc hfd' => ?_, fun fd' c' hc hfd' => ?_, h.refused, ?_, ?_, ?_⟩
    · simp only [mem_append, mem_singleton, not_or] at hfd'
      simp only [update_of_ne hfd'.2] at hc ⊢
      exact h.waiting fd' c' hc hfd'.1
    · rcases eq_or_ne fd' fd with rfl | hne
      · simp only [update_self] at hc
        exact (Option.some.inj hc).symm
      · simp only [update_of_ne hne] at hc
        refine h.accepted fd' c' hc ?_
        simpa [hne] using hfd'
    · simp only [length_append, length_singleton]
      omega
    · intro fd' hfd'
      simp only [mem_append, mem_singleton, length_append,
        length_singleton] at hfd' ⊢
      rcases eq_or_ne fd' fd with rfl | hne
      · rw [update_self]
        exact Nat.lt_succ_self _
      · rw [update_of_ne hne]
        exact (h.lt fd' (hfd'.resolve_right hne)).trans (Nat.lt_succ_self _)
    · -- the new number is greater than the others
      intro fd₁ h₁ fd₂ h₂ heq
      simp only [mem_append, mem_singleton] at h₁ h₂ heq
      rcases eq_or_ne fd₁ fd with e₁ | hne₁ <;> rcases eq_or_ne fd₂ fd with e₂ | hne₂
      · rw [e₁, e₂]
      · rw [e₁, update_self, update_of_ne hne₂] at heq
        exact absurd (h.lt fd₂ (h₂.resolve_right hne₂)) (by omega)
      · rw [e₂, update_self, update_of_ne hne₁] at heq
        exact absurd (h.lt fd₁ (h₁.resolve_right hne₁)) (by omega)
      · rw [update_of_ne hne₁, update_of_ne hne₂] at heq
        exact h.apart fd₁ (h₁.resolve_right hne₁) fd₂ (h₂.resolve_right hne₂) heq
  · -- refused: with the same number the texts would be the same
    obtain rfl := ok.inj hs
    have hne : c.sender ≠ m := by
      intro hm
      rw [hm] at htext
      have hp : text <+: passwd m := ⟨_, htext⟩
      exact hsame (hp.eq_of_length (by omega))
    have hc := h.change fd text none (fun _ hc => by cases hc) fun _ hc => by cases hc
    refine { hc with refused := fun hmem => ?_ }
    rcases List.mem_cons.1 hmem with heq | hmem
    · exact hne heq.symm
    · exact h.refused hmem

theorem Invariant.step (hs : AllowedStep m lowerNum s s') : Invariant m lowerNum s' := by
  obtain ⟨e, hallowed, hrun⟩ := hs
  cases e with
  | connect fd sender =>
    rw [react] at hrun
    split_ifs at hrun
    · exact ok.inj hrun ▸ h
    · obtain rfl := ok.inj hrun
      refine h.change fd [] _ (fun c' hc _ => ?_) fun _ _ hmem => absurd hmem hallowed.1
      obtain rfl := Option.some.inj hc
      exact ⟨rfl, by simp [passwd], rfl, hallowed.2⟩
  | hangUp fd =>
    obtain rfl := ok.inj hrun
    have hc := h.change fd (s.fdToPasswd fd) none (fun _ hc => by cases hc)
      fun _ hc => by cases hc
    simpa only [Function.update_eq_self] using hc
  | read fd n =>
    rw [react] at hrun
    split at hrun
    · exact ok.inj hrun ▸ h
    · rename_i c hc
      split_ifs at hrun with hfd
      · obtain rfl := ok.inj hrun
        obtain rfl := h.accepted fd c hc hfd
        have hc := h.change fd (s.fdToPasswd fd) (some ⟨m, [], []⟩)
          (fun _ _ hmem => absurd hfd hmem) fun c' hc' _ => (Option.some.inj hc').symm
        simpa only [Function.update_eq_self, drop_nil, take_nil, append_nil] using hc
      · have hw := h.waiting fd c hc hfd
        have hshort := hw.short
        dsimp only at hrun
        refine h.verify hfd ?_ ?_ ?_ ?_ hrun
        · rw [append_assoc, take_append_drop, hw.text_eq]
        · rw [length_append, length_take]
          omega
        · exact hw.data
        · exact hw.own

end

theorem Invariant.initial (m lowerNum : ℕ) : Invariant m lowerNum .initial where
  waiting _ _ hc := by cases hc
  accepted _ _ hc := by cases hc
  refused := not_mem_nil
  fits := Nat.zero_le _
  lt _ hfd := by cases hfd
  apart _ hfd := by cases hfd

end

/-- **Admission**: in every allowed run the merger admits exactly its own senders. -/
theorem merger_admits_own (exchangeId lowerNum : ℕ) {s : State}
    (h : Runs.Reaches (AllowedStep exchangeId lowerNum) .initial s) :
    Admits exchangeId lowerNum s :=
  (Runs.invariant (I := Invariant exchangeId lowerNum) (fun _ _ hi hs => hi.step hs) h
    (.initial exchangeId lowerNum)).admits

def reactAll (exchangeId lowerNum : ℕ) (events : List Event) : Run State :=
  events.foldlM (react exchangeId lowerNum) .initial

theorem own_sender_admitted :
    ∃ s, Runs.Reaches (AllowedStep 7 1) .initial s ∧ 5 ∈ s.fdList ∧ Admits 7 1 s := by
  have hstep : AllowedStep 7 1 .initial (.mk [] (fun _ => 0)
      (update (fun _ => []) 5 []) (update (fun _ => none) 5
        (some ⟨7, passwd 7, []⟩)) []) :=
    ⟨.connect 5 7, ⟨not_mem_nil, fun _ => rfl⟩, rfl⟩
  have hreach := Relation.ReflTransGen.single hstep |>.tail ⟨.read 5 20, trivial, rfl⟩
  exact ⟨_, hreach, by decide, merger_admits_own 7 1 hreach⟩

/-- Merger 1 takes a sender of exchange 12 for its own; and the first sender on a descriptor that is
used again is not verified. -/
theorem foreign_sender_admitted :
    (∃ s c, reactAll 1 2 [.connect 5 12, .read 5 20, .read 5 20] = .ok s ∧ 5 ∈ s.fdList ∧
      s.lowers 5 = some c ∧ c.sender = 12 ∧ c.blockData = ['2'] ∧ ¬ Admits 1 2 s) ∧
    ∃ s c, reactAll 1 2 [.connect 5 1, .read 5 20, .hangUp 5, .connect 5 3, .read 5 20] = .ok s ∧
      s.lowers 5 = some c ∧ c.sender = 3 ∧ c.blockData = passwd 3 ∧ ¬ Admits 1 2 s := by
  refine ⟨⟨_, _, rfl, by decide, rfl, rfl, rfl, fun h => ?_⟩,
    _, _, rfl, rfl, rfl, rfl, fun h => ?_⟩
  · exact absurd (h.own 5 _ rfl (by decide)) (by decide)
  · exact absurd (h.own 5 _ rfl (by decide)) (by decide)

end Merger
