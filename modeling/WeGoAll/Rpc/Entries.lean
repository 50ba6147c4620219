import WeGoAll.Rpc.Moves

/-!
# Rpc — Entries

Where the entries of the tables come from.  Each theorem takes an entry that is in a table after a
move: it was there before, or it came from the phase or the table the move takes entries from, with
the right to do so.

* `Move.outgoing_lookup`, `Move.delayed`, `Move.issuing`: the requests of this side.
* `Move.incoming`, `Move.processed`, `Move.reply_lookup`: the requests of the other side and their
  replies.
* `Move.oneWay_mem`: the requests nobody waits for.
-/

namespace Wga

variable {L : Libraries} {R : Rights} {ph ph' : Phase} {r r' : Rpc} {id : RpcId} {p : Bytes}

/-- A request in flight was issued by this operation or taken from the delayed ones. -/
theorem Move.outgoing_lookup (hm : Move L R ph r ph' r')
    (h : r'.outgoingRequests.lookup id = some p) : r.outgoingRequests.lookup id = some p ∨
      (∃ q, ph = .issuing id q) ∨ id ∈ r.delayedRequests := by
  have inserted : ∀ {a : RpcId} {q : Bytes},
      (r.outgoingRequests.insert a q).lookup id = some p →
      r.outgoingRequests.lookup id = some p ∨ id = a := fun {a q} h => by
    by_cases hid : id = a
    · exact .inr hid
    · rw [AList.lookup_insert_ne hid] at h
      exact .inl h
  cases hm with
  | @start _ a q =>
      rcases inserted h with h | rfl
      · exact .inl h
      · exact .inr (.inl ⟨q, rfl⟩)
  | @release _ c a q now clock hid =>
      rcases inserted h with h | rfl
      · exact .inl h
      · exact .inr (.inr (AList.lookup_isSome.mp (Option.isSome_of_eq_some hid)))
  | @complete _ a =>
      by_cases hid : id = a
      · subst hid
        rw [AList.lookup_erase] at h
        cases h
      · rw [AList.lookup_erase_ne hid] at h
        exact .inl h
  | request | requestOneWay | greet | delay | unqueue | accept | answer | queue | forget | drop
  | stopClock | take | discard | advance | close => exact .inl h
  | rehash hr =>
      rw [← AList.perm_lookup hr.outgoingRequests] at h
      exact .inl h

theorem Move.outgoing (hm : Move L R ph r ph' r') (h : id ∈ r'.outgoingRequests) :
    id ∈ r.outgoingRequests ∨ (∃ q, ph = .issuing id q) ∨ id ∈ r.delayedRequests := by
  obtain ⟨p, hp⟩ := Option.isSome_iff_exists.mp (AList.lookup_isSome.mpr h)
  exact (hm.outgoing_lookup hp).imp_left fun h =>
    AList.lookup_isSome.mp (Option.isSome_of_eq_some h)

/-- A delayed request was issued by this operation. -/
theorem Move.delayed (hm : Move L R ph r ph' r') (h : id ∈ r'.delayedRequests) :
    id ∈ r.delayedRequests ∨ ∃ q, ph = .issuing id q := by
  cases hm with
  | @delay _ a q =>
      rcases (AList.mem_insert _).mp h with rfl | h
      · exact .inr ⟨q, rfl⟩
      · exact .inl h
  | unqueue => exact .inl (AList.mem_erase.mp h).2
  | request | requestOneWay | greet | start | release | complete | accept | answer | queue | forget
  | drop | stopClock | take | discard | advance | close => exact .inl h
  | rehash hr => exact .inl ((AList.mem_of_perm hr.delayedRequests).mpr h)

/-- A request is issued with the right to. -/
theorem Move.issuing (hm : Move L R ph r (.issuing id p) r') :
    R.may r (.requested id p) ∨ R.may r (.requestedOneWay id p) ∨ R.greets := by
  cases hm with
  | request hmay => exact .inl hmay
  | requestOneWay hmay => exact .inr (.inl hmay)
  | greet hmay => exact .inr (.inr hmay)

/-- A request that is being answered was in flight. -/
theorem Move.completing (hm : Move L R ph r (.completing id) r') :
    ph = .completing id ∨ id ∈ r.outgoingRequests := by
  cases hm with
  | complete hmay hout => exact .inr hout
  | release | unqueue => exact .inl rfl

/-- A request leaves the table when it is answered. -/
theorem Move.outgoing_kept (hm : Move L R ph r ph' r') (h : id ∈ r.outgoingRequests) :
    id ∈ r'.outgoingRequests ∨ R.may r (.completed id) := by
  cases hm with
  | start | release => exact .inl ((AList.mem_insert _).mpr (.inr h))
  | @complete _ a hmay =>
      by_cases hid : id = a
      · exact .inr (hid ▸ hmay)
      · exact .inl (AList.mem_erase.mpr ⟨hid, h⟩)
  | request | requestOneWay | greet | delay | unqueue | accept | answer | queue | forget | drop
  | stopClock | take | discard | advance | close => exact .inl h
  | rehash hr => exact .inl ((AList.mem_of_perm hr.outgoingRequests).mp h)

/-- A request of the other side was accepted. -/
theorem Move.incoming (hm : Move L R ph r ph' r') (h : id ∈ r'.incomingRequests) :
    id ∈ r.incomingRequests ∨ ∃ q, R.may r (.accepted id q) := by
  cases hm with
  | @accept _ a q now clock hmay =>
      rcases (AList.mem_insert _).mp h with rfl | h
      · exact .inr ⟨q, hmay⟩
      · exact .inl h
  | answer => exact .inl (AList.mem_erase.mp h).2
  | request | requestOneWay | greet | start | delay | release | unqueue | complete | queue | forget
  | drop | stopClock | take | discard | advance | close => exact .inl h
  | rehash hr => exact .inl ((AList.mem_of_perm hr.incomingRequests).mpr h)

/-- A stored reply was given to a request that waited for it. -/
theorem Move.reply_lookup (hm : Move L R ph r ph' r')
    (h : r'.outgoingReplies.lookup id = some p) : r.outgoingReplies.lookup id = some p ∨
      id ∈ r.incomingRequests ∧ R.may r (.replied id p) := by
  cases hm with
  | @answer _ a q hmay hin =>
      by_cases hid : id = a
      · subst hid
        rw [AList.lookup_insert] at h
        cases h
        exact .inr ⟨hin, hmay⟩
      · rw [AList.lookup_insert_ne hid] at h
        exact .inl h
  | @discard _ a =>
      by_cases hid : id = a
      · subst hid
        rw [AList.lookup_erase] at h
        cases h
      · rw [AList.lookup_erase_ne hid] at h
        exact .inl h
  | request | requestOneWay | greet | start | delay | release | unqueue | accept | complete | queue
  | forget | drop | stopClock | take | advance | close => exact .inl h
  | rehash hr =>
      rw [← AList.perm_lookup hr.outgoingReplies] at h
      exact .inl h

/-- A reply is stored for a request that waited for it. -/
theorem Move.stored (hm : Move L R ph r ph' r') (h : id ∈ r'.outgoingReplies) :
    id ∈ r.outgoingReplies ∨ id ∈ r.incomingRequests := by
  obtain ⟨p, hp⟩ := Option.isSome_iff_exists.mp (AList.lookup_isSome.mpr h)
  rcases hm.reply_lookup hp with hp | ⟨hin, -⟩
  · exact .inl (AList.lookup_isSome.mp (Option.isSome_of_eq_some hp))
  · exact .inr hin

/-- A request that is remembered as processed waited for its reply. -/
theorem Move.processed (hm : Move L R ph r ph' r') (h : id ∈ r'.processedRequests.keys) :
    id ∈ r.processedRequests.keys ∨ id ∈ r.incomingRequests := by
  cases hm with
  | answer hmay hin =>
      rcases LruCache.mem_put h with rfl | h
      · exact .inr hin
      · exact .inl h
  | request | requestOneWay | greet | start | delay | release | unqueue | accept | complete | queue
  | forget | drop | stopClock | take | discard | advance | close => exact .inl h
  | rehash hr =>
      rw [hr.rest] at h
      exact .inl h

/-- A request nobody waits for was issued so, or by a handshake. -/
theorem Move.oneWay_mem (hm : Move L R ph r ph' r') (h : id ∈ r'.oneWayRequests) :
    id ∈ r.oneWayRequests ∨ (∃ q, .requestedOneWay id q ∈ r'.history) ∨ R.greets := by
  cases hm with
  | @requestOneWay _ a q =>
      rcases Finset.mem_insert.mp h with rfl | h
      · exact .inr (.inl ⟨q, List.mem_append_right _ (List.mem_singleton.mpr rfl)⟩)
      · exact .inl h
  | greet hmay => exact .inr (.inr hmay)
  | forget => exact .inl (Finset.mem_of_mem_erase h)
  | request | start | delay | release | unqueue | accept | answer | complete | queue | drop
  | stopClock | take | discard | advance | close => exact .inl h
  | rehash hr =>
      rw [hr.rest] at h
      exact .inl h

end Wga
