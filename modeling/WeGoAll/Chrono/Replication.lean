import Mathlib.Data.List.Induction
import WeGoAll.Chrono.Chain
import WeGoAll.Formats.Msgpack
import WeGoAll.Peer.MyPeer

/-!
# Chrono — Replication

The inputs a peer records with `updateState`, and the store another peer builds from its
broadcasts.  Both are stores of one chain: the block `j` brings what the data of the call `j`
change.

* `getChanges_lookup`: the changes recorded are the `Timeline.delta` of the data.
* `updateState_ok`, `readInputs_ok`: one call, and one broadcast received.
* `replication`: the two stores answer alike, as far as the blocks received reach.
-/

namespace Wga

open Timeline ChronoMap MyPeer

/-! ### Changes -/

section Changes

variable {κ ν : Type} [DecidableEq κ]

/-- Building a table from entries with different keys. -/
theorem lookup_foldl_insert {f : (Σ _ : κ, ν) → Bool} {l : List (Σ _ : κ, ν)} (hl : l.NodupKeys)
    (m : UnorderedMap κ ν) (k : κ) :
    (l.foldl (fun m e => if f e then m.insert e.1 e.2 else m) m).lookup k =
      ((l.dlookup k).bind fun v => if f ⟨k, v⟩ then some v else none).or (m.lookup k) := by
  induction l generalizing m with
  | nil => rfl
  | cons e l ih =>
      obtain ⟨k₀, v⟩ := e
      obtain ⟨hk₀, hl⟩ := List.nodupKeys_cons.mp hl
      rw [List.foldl_cons, ih hl]
      by_cases hk : k = k₀
      · subst hk
        rw [List.dlookup_eq_none.mpr hk₀, List.dlookup_cons_eq]
        by_cases hf : f ⟨k, v⟩ <;> simp [hf]
      · rw [List.dlookup_cons_ne _ _ hk]
        congr 1
        split
        · rw [AList.lookup_insert_ne hk]
        · rfl

/-- **The changes** of a key: nothing when its last value is the one it has, else its value. -/
theorem getChanges_lookup [DecidableEq ν] (data : UnorderedMap κ ν) (m : ChronoMap κ ν) (k : κ) :
    (m.getChanges data).lookup k =
      if (timesOf m.data k).getLast?.map Prod.snd = data.lookup k then none
      else data.lookup k := by
  have hlast : ∀ k, (timesOf m.data k).getLast?.map Prod.snd =
      (m.data.lookup k).bind TimeMap.last := by
    intro k
    unfold timesOf
    cases m.data.lookup k <;> rfl
  have hloop : m.getChanges data = data.entries.foldl (fun (c : UnorderedMap κ ν) it =>
      if decide ((m.data.lookup it.1).bind TimeMap.last ≠ some it.2) then
        c.insert it.1 it.2 else c) ∅ := by
    refine congrArg (fun f => data.entries.foldl f ∅) (funext fun c => funext fun it => ?_)
    cases m.data.lookup it.1 with
    | none => simp
    | some times => by_cases h : times.last = some it.2 <;> simp [h]
  rw [hlast]
  have hd : data.entries.dlookup k = data.lookup k := rfl
  rw [hloop, lookup_foldl_insert data.nodupKeys, hd, AList.lookup_empty, Option.or_none]
  cases hv : data.lookup k with
  | none => simp
  | some v => simp only [Option.bind_some, decide_eq_true_eq, ne_eq, ite_not]

end Changes

theorem toUnorderedMap_lookup (b : UnorderedMap Bytes Bytes) (k : Bytes) :
    (toUnorderedMap (b.entries.map fun e => (e.1, e.2))).lookup k = b.lookup k := by
  have h := lookup_foldl_insert (f := fun _ => true) b.nodupKeys ∅ k
  simp only [if_true, AList.lookup_empty, Option.or_none, Option.bind_fun_some] at h
  rw [toUnorderedMap, List.foldl_map]
  exact h

/-! ### The chain of a history -/

/-- A history of calls of `updateState`. -/
structure InputHistory where
  calls : List (Int × UnorderedMap Bytes Bytes)
  increasing : (calls.map Prod.fst).Pairwise (· < ·)
  positive : ∀ c ∈ calls, 0 < c.1
  /-- Time stamps are `int64_t`. -/
  bounded : ∀ c ∈ calls, c.1 < 2 ^ 63
  first : ∀ c, calls.head? = some c → c.2.entries ≠ []

namespace InputHistory

variable (H : InputHistory)

/-- The beginning of the block `j`: 0, and then the time stamp of the call before. -/
def time : Nat → Int
  | 0 => 0
  | j + 1 => (H.calls[j]?.map Prod.fst).getD 0

/-- The value the data of the call `j` have for `k`. -/
def values (j : Nat) (k : Bytes) : Option Bytes := H.calls[j]?.bind fun c => c.2.lookup k

theorem time_succ {j : Nat} (hj : j < H.calls.length) : H.time (j + 1) = (H.calls[j]).1 := by
  simp [time, hj]

theorem time_lt (j : Nat) (hj : j < H.calls.length) : H.time j < H.time (j + 1) := by
  rw [time_succ H hj]
  cases j with
  | zero => exact H.positive _ (List.getElem_mem hj)
  | succ j =>
      rw [time_succ H (Nat.lt_of_succ_lt hj)]
      have h := List.pairwise_iff_getElem.mp H.increasing j (j + 1) (by simp; omega) (by simpa)
        (Nat.lt_succ_self j)
      simpa using h

theorem time_bounds {j : Nat} (hj : j ≤ H.calls.length) : 0 ≤ H.time j ∧ H.time j < 2 ^ 63 := by
  cases j with
  | zero => exact ⟨le_rfl, show (0 : Int) < 2 ^ 63 by decide⟩
  | succ j =>
      rw [time_succ H hj]
      exact ⟨(H.positive _ (List.getElem_mem hj)).le, H.bounded _ (List.getElem_mem hj)⟩

/-- No calls. -/
def empty : InputHistory where
  calls := []
  increasing := List.Pairwise.nil
  positive _ h := absurd h List.not_mem_nil
  bounded _ h := absurd h List.not_mem_nil
  first _ h := by cases h

/-- The calls so far are older than the time the history ends at. -/
theorem le_time (H : InputHistory) {c : Int × UnorderedMap Bytes Bytes} (hc : c ∈ H.calls) :
    c.1 ≤ H.time H.calls.length := by
  obtain ⟨i, hi, rfl⟩ := List.getElem_of_mem hc
  rw [← H.time_succ hi]
  exact time_le H.time_lt hi le_rfl

/-- One more call. -/
def snoc (H : InputHistory) (t : Int) (data : UnorderedMap Bytes Bytes)
    (hlt : H.time H.calls.length < t) (ht : t < 2 ^ 63)
    (hd : H.calls = [] → data.entries ≠ []) : InputHistory where
  calls := H.calls ++ [(t, data)]
  increasing := by
    rw [List.map_append, List.pairwise_append]
    refine ⟨H.increasing, List.pairwise_singleton _ _, fun a ha b hb => ?_⟩
    obtain ⟨c, hc, rfl⟩ := List.mem_map.mp ha
    obtain rfl := List.mem_singleton.mp hb
    exact (H.le_time hc).trans_lt hlt
  positive c hc := by
    rcases List.mem_append.mp hc with hc | hc
    · exact H.positive c hc
    · obtain rfl := List.mem_singleton.mp hc
      exact (H.time_bounds le_rfl).1.trans_lt hlt
  bounded c hc := by
    rcases List.mem_append.mp hc with hc | hc
    · exact H.bounded c hc
    · obtain rfl := List.mem_singleton.mp hc
      exact ht
  first c hc := by
    cases hcalls : H.calls with
    | nil =>
        rw [hcalls] at hc
        cases hc
        exact hd hcalls
    | cons c₀ cs =>
        rw [hcalls] at hc
        exact H.first c (hcalls ▸ hc)

/-- The blocks of the changes. -/
def chain : Chain Bytes Bytes where
  length := H.calls.length
  time := H.time
  values := delta H.values
  time_zero := rfl
  time_lt := H.time_lt
  first h := by
    obtain ⟨e, es, he⟩ := List.exists_cons_of_ne_nil
      (H.first H.calls[0] (by rw [List.head?_eq_getElem?, List.getElem?_eq_getElem h]))
    have hv : H.values 0 e.1 ≠ none := by
      rw [values, List.getElem?_eq_getElem h, Option.bind_some]
      intro hnone
      have hmem : e.1 ∈ (H.calls[0]).2 := by
        rw [AList.mem_keys, AList.keys, he]
        exact List.mem_cons_self
      exact AList.lookup_eq_none.mp hnone hmem
    refine ⟨e.1, ?_⟩
    rw [delta, latest, if_neg hv.symm]
    exact hv

/-- The payload carries the blocks of the broadcast `j`: its own and the two before. -/
def Carries (L : Libraries) (j : Nat) (payload : Bytes) : Prop :=
  ∃ ls w, List.Forall₂ H.chain.IsBlock ls w ∧ w.length = INPUT_SEND_WINDOW_SIZE ∧
    (∀ l, l ∈ ls ↔ j ≤ l + 2 ∧ l ≤ j) ∧ payload = L.pack (w.flatMap blockObjects)

end InputHistory

/-! ### One call, one broadcast -/

variable {L : Libraries} {H : InputHistory}

theorem Chain.Inv.congr {C : Chain Bytes Bytes} {R R' : Nat → Prop} {s : ChronoMap Bytes Bytes}
    (h : C.Inv R s) (hR : ∀ j, R j ↔ R' j) : C.Inv R' s :=
  (funext fun j => propext (hR j) : R = R') ▸ h

/-- The buffer holds the last blocks, as many as the window takes. -/
def Buffered (H : InputHistory) (i : Nat) (l : List (Block Bytes Bytes)) : Prop :=
  ∃ s m, s + m = i ∧ m = min i INPUT_SEND_WINDOW_SIZE ∧
    List.Forall₂ H.chain.IsBlock (List.range' s m) l

/-- What a peer keeps after `i` calls. -/
structure Recorded (H : InputHistory) (i : Nat) (inputs : MyInputs) : Prop where
  store : H.chain.Inv (fun j => j < i) inputs.playerInputData
  buffer : Buffered H i inputs.lastSendBuffer

/-- The window of a buffer that ends with `b`. -/
theorem window_concat (l : List (Block Bytes Bytes)) (b : Block Bytes Bytes) :
    window (l ++ [b]) = l ++ [b] ++ List.replicate (INPUT_SEND_WINDOW_SIZE - (l.length + 1)) b := by
  rw [window, List.getLast?_concat]
  simp

/-- A buffer that was full loses its first block to the next one. -/
theorem Buffered.push {i : Nat} {l : List (Block Bytes Bytes)} (h : Buffered H i l)
    {b : Block Bytes Bytes} (hb : H.chain.IsBlock i b) :
    ∃ l', (l ++ [b]).drop ((l ++ [b]).length - INPUT_SEND_WINDOW_SIZE) = l' ++ [b] ∧
      l'.length + 1 = min (i + 1) INPUT_SEND_WINDOW_SIZE ∧
      List.Forall₂ H.chain.IsBlock
        (List.range' (i - l'.length) (min (i + 1) INPUT_SEND_WINDOW_SIZE)) (l' ++ [b]) := by
  obtain ⟨s, m, hsm, hm, hl⟩ := h
  have hlen : l.length = m := by rw [← hl.length_eq, List.length_range']
  have hlen' : (l.drop (m + 1 - INPUT_SEND_WINDOW_SIZE)).length + 1 =
      min (i + 1) INPUT_SEND_WINDOW_SIZE := by
    rw [List.length_drop, hlen]
    unfold INPUT_SEND_WINDOW_SIZE at hm ⊢
    omega
  refine ⟨l.drop (m + 1 - INPUT_SEND_WINDOW_SIZE), ?_, hlen', ?_⟩
  · rw [List.length_append, List.length_singleton, hlen, List.drop_append_of_le_length]
    rw [hlen]
    unfold INPUT_SEND_WINDOW_SIZE
    omega
  · have hd := List.forall₂_drop (m + 1 - INPUT_SEND_WINDOW_SIZE) hl
    rw [List.drop_range', Nat.mul_one] at hd
    have hrange : List.range' (i - (l.drop (m + 1 - INPUT_SEND_WINDOW_SIZE)).length)
        (min (i + 1) INPUT_SEND_WINDOW_SIZE) =
        List.range' (s + (m + 1 - INPUT_SEND_WINDOW_SIZE))
          (m - (m + 1 - INPUT_SEND_WINDOW_SIZE)) ++ [i] := by
      have hstart : i - (l.drop (m + 1 - INPUT_SEND_WINDOW_SIZE)).length =
          s + (m + 1 - INPUT_SEND_WINDOW_SIZE) := by
        rw [List.length_drop, hlen]
        omega
      have hend : i = s + (m + 1 - INPUT_SEND_WINDOW_SIZE) +
          (m - (m + 1 - INPUT_SEND_WINDOW_SIZE)) := by
        unfold INPUT_SEND_WINDOW_SIZE
        omega
      rw [hstart, ← hlen', List.length_drop, hlen, List.range'_1_concat, ← hend]
    rw [hrange]
    exact List.rel_append hd (List.Forall₂.cons hb List.Forall₂.nil)

theorem forall₂_replicate {α β : Type} {R : α → β → Prop} {a : α} {b : β} (h : R a b) (n : Nat) :
    List.Forall₂ R (List.replicate n a) (List.replicate n b) := by
  induction n with
  | zero => exact List.Forall₂.nil
  | succ n ih => exact List.Forall₂.cons h ih

/-- The window of the pushed buffer carries the last three blocks. -/
theorem carries_window {i : Nat} {l' : List (Block Bytes Bytes)} {b : Block Bytes Bytes}
    (hlen : l'.length + 1 = min (i + 1) INPUT_SEND_WINDOW_SIZE) (hb : H.chain.IsBlock i b)
    (h : List.Forall₂ H.chain.IsBlock
      (List.range' (i - l'.length) (min (i + 1) INPUT_SEND_WINDOW_SIZE)) (l' ++ [b])) :
    H.Carries L i (L.pack ((window (l' ++ [b])).flatMap blockObjects)) := by
  refine ⟨List.range' (i - l'.length) (min (i + 1) INPUT_SEND_WINDOW_SIZE) ++
      List.replicate (INPUT_SEND_WINDOW_SIZE - min (i + 1) INPUT_SEND_WINDOW_SIZE) i,
    window (l' ++ [b]), ?_, ?_, fun l => ?_, rfl⟩
  · rw [window_concat, hlen]
    exact List.rel_append h (forall₂_replicate hb _)
  · rw [window_concat, List.length_append, List.length_append, List.length_singleton, hlen,
      List.length_replicate]
    omega
  · rw [List.mem_append, List.mem_range'_1, List.mem_replicate]
    unfold INPUT_SEND_WINDOW_SIZE at hlen ⊢
    omega

/-- **One call of `updateState`** records the changes as the next block and broadcasts it. -/
theorem updateState_ok {i : Nat} (hi : i < H.calls.length) {self : MyInputs}
    (h : Recorded H i self) : ∃ s self', updateState L (H.calls[i]).1 (H.calls[i]).2 self =
      .ok (s, self') ∧ Recorded H (i + 1) self' ∧ H.Carries L i s := by
  obtain ⟨hexp, happ⟩ := h.store.expirationTime (m := i) hi.le (fun j hj => hj)
    (fun _ h => lt_irrefl _ h)
  have hchanges : ∀ k, (self.playerInputData.getChanges (H.calls[i]).2).lookup k =
      H.chain.values i k := by
    intro k
    have hlast := getLast_timeline H.time (delta H.values) i k
    have hv : H.values i k = (H.calls[i]).2.lookup k := by
      rw [InputHistory.values, List.getElem?_eq_getElem hi, Option.bind_some]
    have ht : timesOf self.playerInputData.data k = timeline H.time (delta H.values) i k :=
      happ.times k
    show _ = delta H.values i k
    rw [getChanges_lookup, ht, hlast, latest_delta, ← hv, delta]
  have hts : H.chain.time (i + 1) = (H.calls[i]).1 := H.time_succ hi
  obtain ⟨store, hput, hinv⟩ := Chain.put_ok h.store i hi _ hchanges
  rw [← hexp, hts] at hput
  have hb : H.chain.IsBlock i ⟨self.playerInputData.expirationTime, (H.calls[i]).1,
      self.playerInputData.getChanges (H.calls[i]).2⟩ := ⟨hexp, hts.symm, hchanges⟩
  obtain ⟨l', hdrop, hlen, hl'⟩ := h.buffer.push hb
  refine ⟨_, ⟨store, l' ++ [_]⟩, ?_, ⟨hinv.congr fun j => Nat.lt_succ_iff_lt_or_eq.symm,
    i - l'.length, _, ?_, rfl, hl'⟩, carries_window hlen hb hl'⟩
  · rw [updateState, hput, ok_bind]
    dsimp only
    rw [hdrop]
  · omega

/-- An `int64_t` time stamp is read back as it was written. -/
theorem readInt64_time {t : Int} (h₀ : 0 ≤ t) (h₁ : t < 2 ^ 63) (rest : List MsgObject) :
    MessageReader.readInt64 ⟨.int64 t :: rest, .finished⟩ = .ok (t, ⟨rest, .finished⟩) := by
  rw [MessageReader.readInt64_int64, Int.bmod_eq_of_le (by omega) (by omega)]

/-- **Reading blocks** puts one after the other. -/
theorem readBlocks_eq {w : List (Block Bytes Bytes)}
    (hw : ∀ b ∈ w, (0 ≤ b.startTime ∧ b.startTime < 2 ^ 63) ∧ 0 ≤ b.endTime ∧ b.endTime < 2 ^ 63)
    (m : ChronoMap Bytes Bytes) :
    readBlocks w.length ⟨w.flatMap blockObjects, .finished⟩ m =
      w.foldlM (fun m b => m.put b.startTime b.endTime
        (toUnorderedMap (b.data.entries.map fun e => (e.1, e.2)))) m := by
  induction w generalizing m with
  | nil => rfl
  | cons b w ih =>
      obtain ⟨⟨hs₀, hs₁⟩, he₀, he₁⟩ := hw b List.mem_cons_self
      rw [List.length_cons, List.flatMap_cons, blockObjects, readBlocks, List.foldlM_cons]
      simp only [List.cons_append, List.nil_append]
      rw [readInt64_time hs₀ hs₁, ok_bind, readInt64_time he₀ he₁, ok_bind,
        MessageReader.readMap_map, ok_bind]
      exact congrArg (Except.bind _) (funext fun m => ih (fun a ha =>
        hw a (List.mem_cons_of_mem _ ha)) m)

/-- The blocks of a broadcast are put one after the other. -/
theorem readBlocks_ok {ls : List Nat} {w : List (Block Bytes Bytes)}
    (hw : List.Forall₂ H.chain.IsBlock ls w) (hls : ∀ l ∈ ls, l < H.calls.length)
    {R : Nat → Prop} {m : ChronoMap Bytes Bytes} (hm : H.chain.Inv R m) :
    ∃ m', readBlocks w.length ⟨w.flatMap blockObjects, .finished⟩ m = .ok m' ∧
      H.chain.Inv (fun j => R j ∨ j ∈ ls) m' := by
  have hbounds : ∀ b ∈ w, (0 ≤ b.startTime ∧ b.startTime < 2 ^ 63) ∧
      0 ≤ b.endTime ∧ b.endTime < 2 ^ 63 := by
    intro b hb
    obtain ⟨l, hl, hlb⟩ := forall₂_mem_right hw hb
    exact ⟨hlb.startTime ▸ H.time_bounds (hls l hl).le, hlb.endTime ▸ H.time_bounds (hls l hl)⟩
  rw [readBlocks_eq hbounds]
  clear hbounds
  induction hw generalizing R m with
  | nil => exact ⟨m, rfl, hm.congr fun j => by simp⟩
  | @cons l b ls w hb _ ih =>
      obtain ⟨m₁, hput, hm₁⟩ := Chain.put_ok hm l (hls l List.mem_cons_self)
        (toUnorderedMap (b.data.entries.map fun e => (e.1, e.2)))
        (fun k => (toUnorderedMap_lookup b.data k).trans (hb.data k))
      obtain ⟨m', hread, hm'⟩ := ih (fun a ha => hls a (List.mem_cons_of_mem _ ha)) hm₁
      refine ⟨m', ?_, hm'.congr fun j => by rw [List.mem_cons, or_assoc]⟩
      rw [List.foldlM_cons, hb.startTime, hb.endTime, hput, ok_bind, hread]

/-- **A broadcast received** is a put of every block it carries. -/
theorem readInputs_ok {i : Nat} (hi : i < H.calls.length) {payload : Bytes}
    (hp : H.Carries L i payload) {R : Nat → Prop} {m : ChronoMap Bytes Bytes}
    (hm : H.chain.Inv R m) : ∃ m', readInputs L payload m = .ok m' ∧
      H.chain.Inv (fun j => R j ∨ i ≤ j + 2 ∧ j ≤ i) m' := by
  obtain ⟨ls, w, hw, hlen, hls, rfl⟩ := hp
  obtain ⟨m', h, hm'⟩ := readBlocks_ok hw (fun l hl => ((hls l).mp hl).2.trans_lt hi) hm
  refine ⟨m', ?_, hm'.congr fun j => by rw [hls]⟩
  rw [readInputs, MessageReader.load_pack, ← hlen, h]

/-! ### Histories -/

/-- The broadcasts of a history of calls, and what the peer keeps. -/
def sendAll (L : Libraries) (calls : List (Int × UnorderedMap Bytes Bytes)) :
    Except Fault (List Bytes × MyInputs) :=
  calls.foldlM (fun (sent, self) c => do
    let (s, self) ← updateState L c.1 c.2 self
    .ok (sent ++ [s], self)) ([], noInputs)

/-- What another peer has after it processed the broadcasts with the indices `seq`. -/
def receiveAll (L : Libraries) (sent : List Bytes) (seq : List (Fin sent.length)) :
    Except Fault (ChronoMap Bytes Bytes) :=
  seq.foldlM (fun m i => readInputs L sent[i] m) .new

/-- **The calls of a history** are recorded and broadcast. -/
theorem sendAll_ok (H : InputHistory) : ∃ sent self, sendAll L H.calls = .ok (sent, self) ∧
    Recorded H H.calls.length self ∧ sent.length = H.calls.length ∧
    ∀ i (h : i < sent.length), H.Carries L i sent[i] := by
  suffices h : ∀ n ≤ H.calls.length, ∃ sent self, sendAll L (H.calls.take n) = .ok (sent, self) ∧
      Recorded H n self ∧ sent.length = n ∧ ∀ i (h : i < sent.length), H.Carries L i sent[i] by
    have hall := h H.calls.length le_rfl
    rwa [List.take_length] at hall
  intro n
  induction n with
  | zero =>
      intro _
      refine ⟨[], noInputs, rfl, ⟨Chain.Inv.new.congr fun j => ?_, 0, 0, rfl, rfl,
        List.Forall₂.nil⟩, rfl, fun i h => absurd h (Nat.not_lt_zero i)⟩
      simp
  | succ n ih =>
      intro hn
      obtain ⟨sent, self, hsend, hrec, hlen, hcar⟩ := ih (Nat.le_of_succ_le hn)
      obtain ⟨s, self', hup, hrec', hs⟩ := updateState_ok (L := L) hn hrec
      refine ⟨sent ++ [s], self', ?_, hrec', ?_, fun i hi => ?_⟩
      · have hsend' := hsend
        unfold sendAll at hsend' ⊢
        rw [List.take_succ_eq_append_getElem hn, List.foldlM_append, hsend', ok_bind,
          List.foldlM_cons]
        dsimp only
        rw [hup]
        rfl
      · rw [List.length_append, List.length_singleton, hlen]
      · rcases Nat.lt_or_ge i sent.length with hlt | hge
        · rw [List.getElem_append_left hlt]
          exact hcar i hlt
        · have hin : i = n := by
            rw [List.length_append, List.length_singleton] at hi
            omega
          subst hin
          rw [List.getElem_append_right hge]
          simpa using hs

/-- The block `j` is in one of the broadcasts `seq`. -/
def Carried {n : Nat} (seq : List (Fin n)) (j : Nat) : Prop :=
  ∃ i ∈ seq, i.val ≤ j + 2 ∧ j ≤ i.val

/-- **The broadcasts of a history** are received, whichever and in whatever order. -/
theorem receiveAll_ok {sent : List Bytes} (hlen : sent.length = H.calls.length)
    (hcar : ∀ i (h : i < sent.length), H.Carries L i sent[i]) (seq : List (Fin sent.length)) :
    ∃ remote, receiveAll L sent seq = .ok remote ∧ H.chain.Inv (Carried seq) remote := by
  induction seq using List.reverseRecOn with
  | nil => exact ⟨.new, rfl, Chain.Inv.new.congr fun j => by simp [Carried]⟩
  | append_singleton seq i ih =>
      obtain ⟨m, hm, hinv⟩ := ih
      obtain ⟨m', hread, hinv'⟩ := readInputs_ok (hlen ▸ i.isLt) (hcar i.val i.isLt) hinv
      refine ⟨m', ?_, hinv'.congr fun j => ?_⟩
      · unfold receiveAll at hm ⊢
        rw [List.foldlM_append, hm, ok_bind, List.foldlM_cons]
        simp only [Fin.getElem_fin, hread, ok_bind, List.foldlM_nil]
        rfl
      · simp only [Carried, List.mem_append, List.mem_singleton]
        constructor
        · rintro (⟨a, ha, h⟩ | h)
          · exact ⟨a, Or.inl ha, h⟩
          · exact ⟨i, Or.inr rfl, h⟩
        · rintro ⟨a, ha | rfl, h⟩
          · exact Or.inl ⟨a, ha, h⟩
          · exact Or.inr h

/-- **Replication.**  Whatever broadcasts of a history another peer processes, in whatever order and
however often, its store reaches as far as the blocks received follow each other, and up to there
both peers answer every query with the latest data. -/
theorem replication (L : Libraries) (H : InputHistory) :
    ∃ sent self, sendAll L H.calls = .ok (sent, self) ∧ sent.length = H.calls.length ∧
      ∀ seq : List (Fin sent.length), ∃ remote, receiveAll L sent seq = .ok remote ∧
        (∃ m ≤ H.calls.length, (∀ j < m, Carried seq j) ∧
          (m < H.calls.length → ¬ Carried seq m) ∧ remote.expirationTime = H.time m) ∧
        ∀ t, 0 ≤ t → t < remote.expirationTime → ∃ i < H.calls.length,
          H.time i ≤ t ∧ t < H.time (i + 1) ∧
          ∀ k, remote.get t k = .ok (latest H.values (i + 1) k) ∧
            self.playerInputData.get t k = .ok (latest H.values (i + 1) k) := by
  obtain ⟨sent, self, hsend, hrec, hlen, hcar⟩ := sendAll_ok (L := L) H
  refine ⟨sent, self, hsend, hlen, fun seq => ?_⟩
  obtain ⟨remote, hr, m, ha, hw, hR, hnot⟩ := receiveAll_ok hlen hcar seq
  refine ⟨remote, hr, ⟨m, ha.le, hR, hnot, ha.expirationTime⟩, fun t h₀ ht => ?_⟩
  have hexp : remote.expirationTime = H.time m := ha.expirationTime
  rw [hexp] at ht
  obtain ⟨i, him, h₁, h₂⟩ := exists_interval H.time h₀ ht
  obtain ⟨-, happ⟩ := hrec.store.expirationTime (m := H.calls.length) le_rfl (fun j hj => hj)
    (fun h => absurd h (lt_irrefl _))
  have hin : i < H.calls.length := him.trans_le ha.le
  refine ⟨i, hin, h₁, h₂, fun k => ?_⟩
  rw [← latest_delta H.values]
  exact ⟨ha.get him h₁ h₂ k, happ.get hin h₁ h₂ k⟩

/-- Two calls of `updateState`, at 10 and at 20. -/
def twoInputs : InputHistory :=
  (InputHistory.empty.snoc 10 (.singleton (ascii ['k']) [1]) (by decide) (by decide)
    (by decide)).snoc 20 (.singleton (ascii ['l']) [2]) (by decide) (by decide) (by decide)

/-- Of its broadcasts another peer processes the second only, and that twice. -/
theorem replication_twoInputs : ∃ sent self remote,
    sendAll .standIn twoInputs.calls = .ok (sent, self) ∧
    (∃ h : 1 < sent.length, receiveAll .standIn sent [⟨1, h⟩, ⟨1, h⟩] = .ok remote) ∧
    remote.expirationTime = 20 ∧
    ∀ k, remote.get 15 k = self.playerInputData.get 15 k := by
  obtain ⟨sent, self, hsend, hlen, hall⟩ := replication .standIn twoInputs
  have h : 1 < sent.length := hlen ▸ Nat.one_lt_two
  obtain ⟨remote, hreceive, ⟨m, hm, -, hnot, hexp⟩, hget⟩ := hall [⟨1, h⟩, ⟨1, h⟩]
  -- the second broadcast carries both blocks
  have hcarried : ∀ j < 2, Carried [(⟨1, h⟩ : Fin sent.length), ⟨1, h⟩] j := fun j hj =>
    ⟨⟨1, h⟩, List.mem_cons_self, Nat.le_add_left 1 (j + 1), Nat.le_of_lt_succ hj⟩
  obtain rfl : m = 2 := hm.antisymm (Nat.le_of_not_lt fun hlt => hnot hlt (hcarried m hlt))
  obtain ⟨i, -, -, -, hvalues⟩ := hget 15 (by decide) (by rw [hexp]; decide)
  exact ⟨sent, self, remote, hsend, ⟨h, hreceive⟩, hexp, fun k =>
    (hvalues k).1.trans (hvalues k).2.symm⟩

end Wga
