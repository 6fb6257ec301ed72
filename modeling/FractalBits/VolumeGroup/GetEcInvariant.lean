/-
  VolumeGroup.GetEcInvariant — the books of an erasure-coded read, parametric in what the nodes can
  answer.
-/

import FractalBits.VolumeGroup.GetEc

namespace FractalBits.VolumeGroup

open Lib List

/-! ## §1. The invariant

A read is judged against its surroundings: `Held i blob` says that the node of shard
position `i` can answer with `blob`, `Absent i` that it can answer NotFound, and
`Good i` that it is let through, answers, and does so with its shard. -/

section Invariant

variable (E : EcRead) (Held : Nat → NodeBlob → Prop) (Absent Good : Nat → Prop) (len : Nat)

def Answering (E : EcRead) (Good : Nat → Prop) : Prop :=
  ∀ i, Good i → i < E.k + E.m ∧
    (i < E.k → E.dataAvailable (nodeIndex i E.rotation (E.k + E.m)) = true) ∧
    (E.k ≤ i → E.parityAvailable (nodeIndex i E.rotation (E.k + E.m)) = true)

def GetEvent.Valid : GetEvent → Prop
  | .reply i (.ok blob) => Held i blob
  | .reply i .notFound => Absent i ∧ ¬ Good i
  | .reply i .failed => ¬ Good i
  | .hedge => True

structure GetInv (c : GetCall) : Prop where
  content_len : c.contentLen = len
  results_length : c.shardResults.length = E.k + E.m
  missing_length : c.shardMissing.length = E.k + E.m
  held : ∀ i blob, c.shardResults[i]? = some (some blob) → Held i blob
  early : c.hedged = false → ∀ i blob, E.k ≤ i → c.shardResults[i]? ≠ some (some blob)
  data_count : c.hedged = false → c.dataShardsReceived = c.totalShardsReceived
  pending_nodup : c.pending.Nodup
  pending_open : ∀ i ∈ c.pending, c.shardResults[i]? = some none ∧ (c.hedged = false → i < E.k)
  absent : ∃ nf : List Nat, nf.Nodup ∧ nf.length = c.shardsNotFound ∧
    ∀ i ∈ nf, i < E.k + E.m ∧ Absent i ∧ i ∉ c.pending ∧ (c.hedged = false → i < E.k)
  covered : ∀ i, Good i → i ∈ c.pending ∨ (∃ blob, c.shardResults[i]? = some (some blob)) ∨
    (c.hedged = false ∧ E.k ≤ i)

inductive GetEnd : GetResult → Prop
  | empty (h : len = 0) : GetEnd (.ok [] [])
  | fast {c : GetCall} {tag : UInt64} (hc : GetInv E Held Absent Good len c)
      (hdata : c.hedged = false) (hdec : decodableCohort c.shardResults E.k = some tag) :
      GetEnd (fastResult E c tag)
  | degraded {c : GetCall} (hc : GetInv E Held Absent Good len c) (hhedged : c.hedged = true)
      (hdone : (decodableCohort c.shardResults E.k).isSome ∨ c.pending = []) :
      GetEnd (degradedResult E c)
  | notFound {c : GetCall} (hc : GetInv E Held Absent Good len c)
      (hnone : c.totalShardsReceived = 0) (hquorum : E.m ≤ c.shardsNotFound) :
      GetEnd (.err .blockNotFound)

/-- While a read runs its books are right and it waits for an answer; its result came about in one
    of the ways above. -/
structure GetOk (c : GetCall) : Prop where
  ended : ∀ r, c.finished = some r → GetEnd E Held Absent Good len r
  running : c.finished = none → GetInv E Held Absent Good len c ∧ c.pending ≠ [] ∧
    (c.hedged = true → decodableCohort c.shardResults E.k = none)

variable {E Held Absent Good len} {c c' : GetCall} {i : Nat}

theorem getOk_finished {r : GetResult} (hf : c.finished = some r)
    (h : GetEnd E Held Absent Good len r) : GetOk E Held Absent Good len c where
  ended r' hr := by
    rw [hf] at hr
    injection hr with hr
    exact hr ▸ h
  running hnone := by
    rw [hf] at hnone
    cases hnone

theorem getOk_running (hf : c.finished = none)
    (hc : GetInv E Held Absent Good len c) (hpending : c.pending ≠ [])
    (hdec : c.hedged = true → decodableCohort c.shardResults E.k = none) :
    GetOk E Held Absent Good len c where
  ended r hr := by
    rw [hf] at hr
    cases hr
  running _ := ⟨hc, hpending, hdec⟩

theorem getInv_mono {Held' : Nat → NodeBlob → Prop} (hheld : ∀ i blob, Held i blob → Held' i blob)
    (hc : GetInv E Held Absent Good len c) : GetInv E Held' Absent Good len c :=
  ⟨hc.content_len, hc.results_length, hc.missing_length, fun i blob h => hheld i blob
    (hc.held i blob h), hc.early, hc.data_count, hc.pending_nodup, hc.pending_open, hc.absent,
      hc.covered⟩

theorem getOk_mono {Held' : Nat → NodeBlob → Prop} (hheld : ∀ i blob, Held i blob → Held' i blob)
    (hc : GetOk E Held Absent Good len c) : GetOk E Held' Absent Good len c where
  ended r hr := by
    cases hc.ended r hr with
    | empty h => exact .empty h
    | fast h hdata hdec => exact .fast (getInv_mono hheld h) hdata hdec
    | degraded h hhedged hdone => exact .degraded (getInv_mono hheld h) hhedged hdone
    | notFound h hnone hquorum => exact .notFound (getInv_mono hheld h) hnone hquorum
  running hrun :=
    ⟨getInv_mono hheld (hc.running hrun).1, (hc.running hrun).2⟩

/-! ## §2. Single answers -/

theorem countP_set_some {results : List (Option NodeBlob)} (h : results[i]? = some none)
    (blob : NodeBlob) :
    (results.set i (some blob)).countP Option.isSome = results.countP Option.isSome + 1 := by
  obtain ⟨hlt, hget⟩ := List.getElem?_eq_some_iff.mp h
  rw [countP_set hlt, hget]
  simp

theorem getInv_receive (hc : GetInv E Held Absent Good len c)
    (hpending : i ∈ c.pending) {blob : NodeBlob} (hheld : Held i blob) (received : Nat)
    (hreceived : c.hedged = false → received = c.dataShardsReceived + 1) :
    GetInv E Held Absent Good len
      { c with
        pending := c.pending.erase i
        shardResults := c.shardResults.set i (some blob)
        dataShardsReceived := received } := by
  obtain ⟨hopen, hphase⟩ := hc.pending_open i hpending
  have hlt : i < c.shardResults.length := (List.getElem?_eq_some_iff.mp hopen).1
  have hset : ∀ j, j ≠ i → (c.shardResults.set i (some blob))[j]? = c.shardResults[j]? :=
    fun j hj => List.getElem?_set_ne (Ne.symm hj)
  have hself : (c.shardResults.set i (some blob))[i]? = some (some blob) :=
    List.getElem?_set_self hlt
  obtain ⟨nf, hnodup, hlen, hall⟩ := hc.absent
  refine ⟨hc.content_len, by simpa using hc.results_length, hc.missing_length, ?_, ?_, ?_,
    hc.pending_nodup.erase i, ?_, ⟨nf, hnodup, hlen, ?_⟩, ?_⟩
  · intro j b hj
    by_cases hji : j = i
    · subst hji
      rw [hself] at hj
      injection hj with hj
      injection hj with hj
      exact hj ▸ hheld
    · rw [hset j hji] at hj
      exact hc.held j b hj
  · intro hdata j b hkj hj
    have hik := hphase hdata
    rw [hset j (by omega)] at hj
    exact hc.early hdata j b hkj hj
  · intro hdata
    rw [hreceived hdata, hc.data_count hdata]
    exact (countP_set_some hopen blob).symm
  · intro j hj
    have hji : j ≠ i := fun h => hc.pending_nodup.not_mem_erase (h ▸ hj)
    rw [hset j hji]
    exact hc.pending_open j (mem_of_mem_erase hj)
  · intro j hj
    obtain ⟨h1, h2, h3, h4⟩ := hall j hj
    exact ⟨h1, h2, fun h => h3 (mem_of_mem_erase h), h4⟩
  · intro j hgood
    by_cases hji : j = i
    · exact .inr (.inl ⟨blob, hji ▸ hself⟩)
    · rcases hc.covered j hgood with hj | hj | hj
      · exact .inl ((mem_erase_of_ne hji).mpr hj)
      · exact .inr (.inl (by rwa [hset j hji]))
      · exact .inr (.inr hj)

theorem getInv_lose (hc : GetInv E Held Absent Good len c)
    (hpending : i ∈ c.pending) (hgood : ¬ Good i) (missing : List Bool) (notFound : Nat)
    (hmissing : missing.length = c.shardMissing.length)
    (hnf : notFound = c.shardsNotFound ∨ (notFound = c.shardsNotFound + 1 ∧ Absent i)) :
    GetInv E Held Absent Good len
      { c with
        pending := c.pending.erase i
        shardMissing := missing
        shardsNotFound := notFound } := by
  obtain ⟨hopen, hphase⟩ := hc.pending_open i hpending
  have hlt : i < E.k + E.m := hc.results_length ▸ (List.getElem?_eq_some_iff.mp hopen).1
  obtain ⟨nf, hnodup, hlen, hall⟩ := hc.absent
  have hkeep : ∀ j ∈ nf, j < E.k + E.m ∧ Absent j ∧ j ∉ c.pending.erase i ∧
      (c.hedged = false → j < E.k) := by
    intro j hj
    obtain ⟨h1, h2, h3, h4⟩ := hall j hj
    exact ⟨h1, h2, fun h => h3 (mem_of_mem_erase h), h4⟩
  refine ⟨hc.content_len, hc.results_length, hmissing.trans hc.missing_length, hc.held, hc.early,
    hc.data_count, hc.pending_nodup.erase i,
    fun j hj => hc.pending_open j (mem_of_mem_erase hj), ?_, ?_⟩
  · rcases hnf with rfl | ⟨rfl, habsent⟩
    · exact ⟨nf, hnodup, hlen, hkeep⟩
    · refine ⟨i :: nf, nodup_cons.mpr ⟨fun h => (hall i h).2.2.1 hpending, hnodup⟩,
        by simp [hlen], ?_⟩
      intro j hj
      rcases mem_cons.mp hj with rfl | hj
      · exact ⟨hlt, habsent, hc.pending_nodup.not_mem_erase, hphase⟩
      · exact hkeep j hj
  · intro j hj
    have hji : j ≠ i := fun h => hgood (h ▸ hj)
    rcases hc.covered j hj with h | h | h
    · exact .inl ((mem_erase_of_ne hji).mpr h)
    · exact .inr (.inl h)
    · exact .inr (.inr h)

variable (hgood : Answering E Good)

include hgood

theorem getInv_hedge
    (hc : GetInv E Held Absent Good len c) (hdata : c.hedged = false) :
    GetInv E Held Absent Good len
      { c with
        hedged := true
        pending := c.pending ++ ((List.range E.m).map (E.k + ·)).filter fun i =>
          E.parityAvailable (nodeIndex i E.rotation (E.k + E.m)) } := by
  set parity := ((List.range E.m).map (E.k + ·)).filter fun i =>
    E.parityAvailable (nodeIndex i E.rotation (E.k + E.m)) with hparity
  have hmem : ∀ i ∈ parity, E.k ≤ i ∧ i < E.k + E.m := by
    intro i hi
    obtain ⟨j, hj, rfl⟩ := mem_map.mp (mem_of_mem_filter hi)
    have := mem_range.mp hj
    omega
  have hnodup : parity.Nodup :=
    (nodup_range.map_on fun i _ j _ h => by omega).filter _
  obtain ⟨nf, hnfnodup, hlen, hall⟩ := hc.absent
  refine ⟨hc.content_len, hc.results_length, hc.missing_length, hc.held, by simp, by simp, ?_, ?_,
    ⟨nf, hnfnodup, hlen, ?_⟩, ?_⟩
  · refine nodup_append'.mpr ⟨hc.pending_nodup, hnodup, fun i hi hi' => ?_⟩
    have := (hc.pending_open i hi).2 hdata
    have := hmem i hi'
    omega
  · intro i hi
    refine ⟨?_, by simp⟩
    rcases mem_append.mp hi with hi | hi
    · exact (hc.pending_open i hi).1
    · -- nothing has arrived at a parity position yet
      obtain ⟨hki, hlt⟩ := hmem i hi
      rw [← hc.results_length] at hlt
      cases hr : c.shardResults[i] with
      | none => rw [List.getElem?_eq_getElem hlt, hr]
      | some blob =>
        exact absurd (by rw [List.getElem?_eq_getElem hlt, hr]) (hc.early hdata i blob hki)
  · intro i hi
    obtain ⟨h1, h2, h3, h4⟩ := hall i hi
    refine ⟨h1, h2, fun h => ?_, by simp⟩
    rcases mem_append.mp h with h | h
    · exact h3 h
    · have := hmem i h
      have := h4 hdata
      omega
  · intro i hi
    obtain ⟨hlt, -, havail⟩ := hgood i hi
    rcases hc.covered i hi with h | h | ⟨-, hki⟩
    · exact .inl (mem_append_left _ h)
    · exact .inr (.inl h)
    · refine .inl (mem_append_right _ (mem_filter.mpr ⟨?_, havail hki⟩))
      exact mem_map.mpr ⟨i - E.k, mem_range.mpr (by omega), by omega⟩

/-! ## §3. Steps and runs -/

theorem getOk_endDataPhase (hrun : c.finished = none)
    (hc : GetInv E Held Absent Good len c) (hdata : c.hedged = false) :
    GetOk E Held Absent Good len (c.endDataPhase E) := by
  unfold GetCall.endDataPhase
  split
  · next tag hdec => exact getOk_finished rfl (.fast hc hdata hdec)
  · next hdec =>
      have hinv := getInv_hedge hgood hc hdata
      dsimp only
      split
      · next hempty => exact getOk_finished rfl (.degraded hinv rfl (.inr hempty))
      · next hmore => exact getOk_running hrun hinv hmore fun _ => hdec

omit hgood in
theorem getOk_settle (hrun : c.finished = none)
    (hc : GetInv E Held Absent Good len c) (hhedged : c.hedged = true) :
    GetOk E Held Absent Good len (c.settle E) := by
  unfold GetCall.settle
  split
  · next hdec => exact getOk_finished rfl (.degraded hc hhedged (.inl hdec))
  · next hdec =>
      split
      · next hnone => exact getOk_finished rfl (.notFound hc hnone.1 hnone.2)
      · split
        · next hempty => exact getOk_finished rfl (.degraded hc hhedged (.inr hempty))
        · next hmore =>
            exact getOk_running hrun hc hmore fun _ => Option.not_isSome_iff_eq_none.mp hdec

theorem getOk_start :
    GetOk E Held Absent Good len (GetCall.start E len) := by
  unfold GetCall.start
  dsimp only
  split
  · next hlen => exact getOk_finished rfl (.empty hlen)
  · have hinv : GetInv E Held Absent Good len
        { contentLen := len, shardResults := List.replicate (E.k + E.m) none
          shardMissing := List.replicate (E.k + E.m) false
          dataShardsReceived := 0, shardsNotFound := 0
          pending := (List.range E.k).filter fun i =>
            E.dataAvailable (nodeIndex i E.rotation (E.k + E.m))
          hedged := false, finished := none } := by
      have hempty : ∀ (i : Nat) (blob : NodeBlob),
          (List.replicate (E.k + E.m) (none : Option NodeBlob))[i]?
          ≠ some (some blob) := by
        intro i blob h
        have := eq_of_mem_replicate (mem_of_getElem? h)
        cases this
      refine ⟨rfl, by simp, by simp, fun i blob h => absurd h (hempty i blob),
        fun _ i blob _ => hempty i blob, fun _ => ?_, nodup_range.filter _, ?_,
        ⟨[], nodup_nil, rfl, by simp⟩, ?_⟩
      · simp [GetCall.totalShardsReceived, countP_replicate]
      · intro i hi
        have hlt := mem_range.mp (mem_of_mem_filter hi)
        refine ⟨?_, fun _ => hlt⟩
        rw [List.getElem?_replicate, if_pos (by omega)]
      · intro i hi
        obtain ⟨-, havail, -⟩ := hgood i hi
        by_cases hik : i < E.k
        · exact .inl (mem_filter.mpr ⟨mem_range.mpr hik, havail hik⟩)
        · exact .inr (.inr ⟨rfl, by omega⟩)
    split
    · exact getOk_endDataPhase hgood rfl hinv rfl
    · next hmore => exact getOk_running rfl hinv hmore (by simp)

theorem getOk_dataReply (hrun : c.finished = none)
    (hc : GetInv E Held Absent Good len c) (hdata : c.hedged = false) {r : GetReply}
    (hpending : i ∈ c.pending) (hvalid : (GetEvent.reply i r).Valid Held Absent Good) :
    GetOk E Held Absent Good len (c.dataReply E i r) := by
  unfold GetCall.dataReply
  cases r with
  | ok blob =>
    have hinv := getInv_receive hc hpending hvalid (c.dataShardsReceived + 1) fun _ => rfl
    dsimp only
    split
    · exact getOk_endDataPhase hgood hrun hinv hdata
    · next hmore =>
        exact getOk_running hrun hinv (fun h => hmore (.inr h)) fun h => by
          rw [hdata] at h
          cases h
  | notFound =>
    have hinv := getInv_lose hc hpending hvalid.2 (c.shardMissing.set i true)
      (c.shardsNotFound + 1) (by simp) (.inr ⟨rfl, hvalid.1⟩)
    dsimp only
    split
    · next hnone =>
        -- the counter of the data phase counts what was received so far
        have hcount := hinv.data_count hdata
        exact getOk_finished rfl (.notFound hinv (hcount.symm.trans hnone.1) hnone.2)
    · exact getOk_endDataPhase hgood hrun hinv hdata
  | failed =>
    have hinv := getInv_lose hc hpending hvalid c.shardMissing c.shardsNotFound rfl (.inl rfl)
    exact getOk_endDataPhase hgood hrun hinv hdata

omit hgood in
theorem getOk_anyReply (hrun : c.finished = none)
    (hc : GetInv E Held Absent Good len c) (hhedged : c.hedged = true) {r : GetReply}
    (hpending : i ∈ c.pending) (hvalid : (GetEvent.reply i r).Valid Held Absent Good) :
    GetOk E Held Absent Good len (c.anyReply E i r) := by
  cases r with
  | ok blob =>
    have hinv := getInv_receive hc hpending hvalid c.dataShardsReceived fun h => by
      rw [hhedged] at h
      cases h
    exact getOk_settle hrun hinv hhedged
  | notFound =>
    have hinv := getInv_lose hc hpending hvalid.2 (c.shardMissing.set i true)
      (c.shardsNotFound + 1) (by simp) (.inr ⟨rfl, hvalid.1⟩)
    exact getOk_settle hrun hinv hhedged
  | failed =>
    have hinv := getInv_lose hc hpending hvalid c.shardMissing c.shardsNotFound rfl (.inl rfl)
    exact getOk_settle hrun hinv hhedged

omit hgood in
theorem getStep_cases {e : GetEvent} (h : c.step E e = some c') :
    c.finished = none ∧
    ((∃ i r, e = .reply i r ∧ i ∈ c.pending ∧
        ((c.hedged = true ∧ c' = c.anyReply E i r) ∨ (c.hedged = false ∧ c' = c.dataReply E i r))) ∨
      (e = .hedge ∧ c.hedged = false ∧ c' = c.endDataPhase E)) := by
  cases e with
  | reply i r =>
    simp only [GetCall.step] at h
    split at h
    · cases h
    · next hguard =>
        rw [not_or, not_not] at hguard
        injection h with h
        refine ⟨by simpa using hguard.1, .inl ⟨i, r, rfl, hguard.2, ?_⟩⟩
        cases hhedged : c.hedged with
        | true => exact .inl ⟨rfl, by rw [← h, if_pos hhedged]⟩
        | false => exact .inr ⟨rfl, by rw [← h, if_neg (by simp [hhedged])]⟩
  | hedge =>
    simp only [GetCall.step] at h
    split at h
    · cases h
    · next hguard =>
        rw [not_or] at hguard
        injection h with h
        exact ⟨by simpa using hguard.1, .inr ⟨rfl, by simpa using hguard.2, h.symm⟩⟩

theorem getOk_step (hc : GetOk E Held Absent Good len c)
    {e : GetEvent} (hvalid : e.Valid Held Absent Good) (h : c.step E e = some c') :
    GetOk E Held Absent Good len c' := by
  obtain ⟨hrun, hcase⟩ := getStep_cases h
  have hinv := (hc.running hrun).1
  rcases hcase with ⟨i, r, rfl, hpending, ⟨hhedged, rfl⟩ | ⟨hdata, rfl⟩⟩ | ⟨rfl, hdata, rfl⟩
  · exact getOk_anyReply hrun hinv hhedged hpending hvalid
  · exact getOk_dataReply hgood hrun hinv hdata hpending hvalid
  · exact getOk_endDataPhase hgood hrun hinv hdata

theorem getOk_run (events : List GetEvent)
    (hc : GetOk E Held Absent Good len c) (hvalid : ∀ e ∈ events, e.Valid Held Absent Good)
    (h : c.run E events = some c') : GetOk E Held Absent Good len c' := by
  induction events generalizing c with
  | nil =>
    injection h with h
    exact h ▸ hc
  | cons e rest ih =>
    obtain ⟨c₁, hstep, hrest⟩ := Option.bind_eq_some_iff.mp h
    exact ih (getOk_step hgood hc (hvalid e mem_cons_self) hstep)
      (fun e he => hvalid e (mem_cons_of_mem _ he)) hrest

end Invariant

/-! ## §4. A read is finite -/

/-- How many more events a read can take: its outstanding fetches, and before the data phase is over
    the timer and the parity fetches. -/
def GetCall.budget (E : EcRead) (c : GetCall) : Nat :=
  if c.finished.isSome then 0 else c.pending.length + if c.hedged then 0 else E.m + 1

theorem budget_le (E : EcRead) (c : GetCall) :
    c.budget E ≤ c.pending.length + if c.hedged then 0 else E.m + 1 := by
  unfold GetCall.budget
  split <;> omega

theorem budget_endDataPhase (E : EcRead) (c : GetCall) :
    (c.endDataPhase E).budget E ≤ c.pending.length + E.m := by
  have hparity : (((List.range E.m).map (E.k + ·)).filter fun i =>
      E.parityAvailable (nodeIndex i E.rotation (E.k + E.m))).length ≤ E.m := by
    refine (length_filter_le _ _).trans ?_
    simp
  unfold GetCall.endDataPhase
  split
  · exact Nat.zero_le _
  · dsimp only
    split
    · exact Nat.zero_le _
    · refine (budget_le E _).trans ?_
      simp only [length_append, if_true]
      omega

variable {c : GetCall}

theorem budget_settle (E : EcRead) (h : c.hedged = true) :
    (c.settle E).budget E ≤ c.pending.length := by
  unfold GetCall.settle
  split
  · exact Nat.zero_le _
  · split
    · exact Nat.zero_le _
    · split
      · exact Nat.zero_le _
      · refine (budget_le E c).trans ?_
        rw [if_pos h]
        omega

theorem budget_step {E : EcRead} {c' : GetCall} {e : GetEvent} (h : c.step E e = some c') :
    c'.budget E + 1 ≤ c.budget E := by
  obtain ⟨hrun, hcase⟩ := getStep_cases h
  have hbudget : c.budget E = c.pending.length + if c.hedged then 0 else E.m + 1 := by
    unfold GetCall.budget
    rw [hrun]
    rfl
  rcases hcase with ⟨i, r, rfl, hpending, ⟨hhedged, rfl⟩ | ⟨hdata, rfl⟩⟩ | ⟨rfl, hdata, rfl⟩
  · have hpos := length_pos_of_mem hpending
    have herase : (c.pending.erase i).length = c.pending.length - 1 := length_erase_of_mem hpending
    have hle : (c.anyReply E i r).budget E ≤ (c.pending.erase i).length := by
      cases r with
      | ok blob => exact budget_settle E hhedged
      | notFound => exact budget_settle E hhedged
      | failed => exact budget_settle E hhedged
    rw [hbudget, if_pos hhedged]
    omega
  · have hpos := length_pos_of_mem hpending
    have herase : (c.pending.erase i).length = c.pending.length - 1 := length_erase_of_mem hpending
    have hle : (c.dataReply E i r).budget E ≤ (c.pending.erase i).length + (E.m + 1) := by
      unfold GetCall.dataReply
      cases r with
      | ok blob =>
        dsimp only
        split
        · exact (budget_endDataPhase E _).trans (by dsimp only; omega)
        · refine (budget_le E _).trans ?_
          rw [if_neg (by simp [hdata])]
      | notFound =>
        dsimp only
        split
        · exact Nat.zero_le _
        · exact (budget_endDataPhase E _).trans (by dsimp only; omega)
      | failed => exact (budget_endDataPhase E _).trans (by dsimp only; omega)
    rw [hbudget, if_neg (by simp [hdata])]
    omega
  · have hle := budget_endDataPhase E c
    rw [hbudget, if_neg (by simp [hdata])]
    omega

theorem run_length_le {E : EcRead} (events : List GetEvent) {c' : GetCall}
    (h : c.run E events = some c') : events.length ≤ c.budget E := by
  induction events generalizing c with
  | nil => exact Nat.zero_le _
  | cons e rest ih =>
    obtain ⟨c₁, hstep, hrest⟩ := Option.bind_eq_some_iff.mp h
    have hle := ih hrest
    have hone := budget_step hstep
    rw [length_cons]
    omega

theorem budget_start (E : EcRead) (contentLen : Nat) :
    (GetCall.start E contentLen).budget E ≤ E.k + E.m + 1 := by
  have hdata : ((List.range E.k).filter fun i =>
      E.dataAvailable (nodeIndex i E.rotation (E.k + E.m))).length ≤ E.k := by
    refine (length_filter_le _ _).trans ?_
    simp
  unfold GetCall.start
  dsimp only
  split
  · exact Nat.zero_le _
  · split
    · exact (budget_endDataPhase E _).trans (by dsimp only; omega)
    · refine (budget_le E _).trans ?_
      dsimp only
      rw [if_neg (by simp)]
      omega

end FractalBits.VolumeGroup
