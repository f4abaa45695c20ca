import Mathlib.Data.List.ReduceOption
import Holdings.Proofs.Accounts
/-!
# Identifiers times windows

A record grants its licences to all of its identifiers, so what it files is a product: under every
key stand all licences of the record in their order, and an entry is counted for each pair
(`Outcome.isProduct_share`). A window that is at fault has no licence. It is counted for itself and
takes nothing from the others.
-/

namespace Holdings

/-! ## Some licences under all keys -/

namespace Registry

/-- Each licence under all keys, one licence after the other. -/
def crossed (keys : List String) (ls : List Licence) : List (String × Licence) :=
  ls.flatMap fun l => keys.map fun key => (key, l)

theorem length_crossed (keys : List String) (ls : List Licence) :
    (crossed keys ls).length = keys.length * ls.length := by
  simp [crossed, List.length_flatMap, Nat.mul_comm]

variable {keys : List String}

/-- All licences stand under each key, in their order. -/
theorem under_crossed (hkeys : ∀ key ∈ keys, Issn.normalize key = key) (hnodup : keys.Nodup)
    (id : String) (ls : List Licence) :
    under id (crossed keys ls) = if Issn.normalize id ∈ keys then ls else [] := by
  have hfilter : (keys.filter fun key => Issn.normalize key = Issn.normalize id) =
      List.replicate (if Issn.normalize id ∈ keys then 1 else 0) (Issn.normalize id) := by
    rw [← hnodup.count, ← List.filter_eq]
    exact List.filter_congr fun key hkey => by rw [hkeys key hkey]
  have hone : ∀ l, under id (keys.map fun key => (key, l)) =
      if Issn.normalize id ∈ keys then [l] else [] := by
    intro l
    rw [under, List.filter_map, List.map_map]
    show (keys.filter fun key => Issn.normalize key = Issn.normalize id).map _ = _
    rw [hfilter]
    split <;> rfl
  rw [crossed]
  induction ls with
  | nil => exact (ite_self []).symm
  | cons l ls ih =>
      have hcons := hone l
      rw [under] at hcons ih
      rw [under, List.flatMap_cons, List.filter_append, List.map_append, hcons, ih]
      split <;> rfl

theorem lookup_crossed (hkeys : ∀ key ∈ keys, Issn.normalize key = key) (hnodup : keys.Nodup)
    (ls : List Licence) (id : String) :
    (ofList (crossed keys ls)).lookup id = if Issn.normalize id ∈ keys then ls else [] := by
  rw [lookup_ofList, under_crossed hkeys hnodup]

/-- The keys have their order from the first licence, and the others bring no new ones. -/
theorem identifiers_crossed (hkeys : ∀ key ∈ keys, Issn.normalize key = key)
    (honce : keys.eraseDups = keys) (ls : List Licence) :
    (ofList (crossed keys ls)).identifiers = if ls = [] then [] else keys := by
  have hsame : (keys.map fun key => Issn.normalize key) = keys :=
    (List.map_congr_left hkeys).trans (List.map_id _)
  have hfirst : (crossed keys ls).map (fun p => Issn.normalize p.1) = ls.flatMap fun _ => keys := by
    rw [crossed, List.map_flatMap]
    congr 1
    funext l
    rw [List.map_map]
    exact hsame
  rw [identifiers_ofList, hfirst]
  cases ls with
  | nil => rfl
  | cons l ls =>
      have hrest : (ls.flatMap fun _ => keys).removeAll keys = [] := by
        rw [List.removeAll, List.filter_eq_nil_iff]
        intro key hkey
        obtain ⟨-, -, hmem⟩ := List.mem_flatMap.mp hkey
        simpa using hmem
      rw [List.flatMap_cons, List.eraseDups_append, hrest, honce, if_neg (List.cons_ne_nil l ls)]
      exact List.append_nil keys

end Registry

theorem flatMap_filings (keys : List String) (ls : List (Except RecordFault Licence)) :
    ls.flatMap (filings keys) = Registry.crossed keys (ls.map Except.toOption).reduceOption := by
  induction ls with
  | nil => rfl
  | cons l ls ih =>
      rw [List.flatMap_cons, ih, List.map_cons]
      cases l <;> rfl

/-! ## What a record brings -/

/-- What is brought by a record with keys and windows. Each key has the licences of all windows that
have one, in their order, and each of these counts as an entry under each key; the other windows are
counted as well. A record without keys adds nothing, and only that is counted. -/
structure Reading.IsProduct (r : Reading) (keys : List String) (windows : List (Option Licence)) :
    Prop where
  lookup : ∀ id, r.registry.lookup id =
    if Issn.normalize id ∈ keys then windows.reduceOption else []
  identifiers : r.registry.identifiers = if windows.reduceOption = [] then [] else keys
  report : r.report =
    if keys = [] then { Report.empty with records := 1, missingIdentifiers := 1 }
    else { Report.empty with
      records := 1
      entries := keys.length * windows.reduceOption.length
      invalidEmbargo := windows.countP Option.isNone }

theorem Report.ext_counter {a b : Report} (hrecords : a.records = b.records)
    (hentries : a.entries = b.entries) (h : ∀ k, a.counter k = b.counter k) : a = b := by
  obtain ⟨ra, ea, ma, ia, va, fa⟩ := a
  obtain ⟨rb, eb, mb, ib, vb, fb⟩ := b
  have hmissing : ma = mb := h .missingIdentifiers
  have hincomplete : ia = ib := h .incompleteLine
  have hinvalid : va = vb := h .invalidEmbargo
  have hmalformed : fa = fb := h .malformed
  rw [Report.mk.injEq]
  exact ⟨hrecords, hentries, hmissing, hincomplete, hinvalid, hmalformed⟩

/-- A record has its own faults counted. -/
theorem Outcome.counter_share (o : Outcome) (k : FaultKind) :
    o.share.report.counter k = o.faults.countP fun f => f.kind = k := by
  rw [(Survey.read_eq_ok (Survey.read_singleton o)).2 k, Survey.faults, List.flatMap_singleton]

/-- A window is at fault exactly if it has no licence. -/
theorem countP_licenceFaults {ls : List (Except RecordFault Licence)}
    (h : ∀ l ∈ ls, ∀ fault, l = .error fault → fault.kind = .invalidEmbargo) (k : FaultKind) :
    ((ls.flatMap licenceFaults).countP fun f => f.kind = k) =
      if k = .invalidEmbargo then (ls.map Except.toOption).countP Option.isNone else 0 := by
  induction ls with
  | nil => exact (ite_self 0).symm
  | cons l ls ih =>
      obtain ⟨hl, hls⟩ := List.forall_mem_cons.mp h
      rw [List.flatMap_cons, List.countP_append, ih hls, List.map_cons, List.countP_cons]
      cases l with
      | ok l => exact Nat.zero_add _
      | error fault =>
          have hkind := hl fault rfl
          by_cases hk : k = .invalidEmbargo
          · simp [licenceFaults, Except.toOption, hkind, hk, Nat.add_comm]
          · simp [licenceFaults, hkind, hk, Ne.symm hk]

/-- A record files each of its licences under each of its keys, which may be none. -/
theorem Outcome.files_ofRecord (record : Nat) (ids : List String)
    (ls : List (Except RecordFault Licence)) :
    (ofRecord record ids ls).share.Files
      (Registry.crossed (distinct ids) (ls.map Except.toOption).reduceOption) := by
  have hfiles := (ofRecord record ids ls).files_share
  unfold ofRecord at hfiles ⊢
  split at hfiles
  · next hnone =>
    have hnothing : Registry.crossed [] (ls.map Except.toOption).reduceOption = [] :=
      List.eq_nil_of_length_eq_zero (by rw [Registry.length_crossed, List.length_nil, Nat.zero_mul])
    rw [hnone, hnothing]
    exact hfiles
  · rwa [grants, flatMap_filings] at hfiles

theorem Outcome.faults_ofRecord (record : Nat) (ids : List String)
    (ls : List (Except RecordFault Licence)) :
    (ofRecord record ids ls).faults =
      if distinct ids = [] then [.missingIdentifiers record] else ls.flatMap licenceFaults := by
  unfold ofRecord
  split
  · next hnone => rw [if_pos hnone, faults]
  · next hsome => rw [if_neg hsome, faults]

/-- The share of a record is the product of its keys and its windows. -/
theorem Outcome.isProduct_share {ids : List String} {ls : List (Except RecordFault Licence)}
    (hids : ∀ id ∈ ids, Issn.normalize id = id)
    (hls : ∀ l ∈ ls, ∀ fault, l = .error fault → fault.kind = .invalidEmbargo) (record : Nat) :
    (ofRecord record ids ls).share.IsProduct (distinct ids) (ls.map Except.toOption) := by
  have hkeys : ∀ key ∈ distinct ids, Issn.normalize key = key :=
    fun key hkey => hids key (mem_distinct.mp hkey).1
  have hfiles := files_ofRecord record ids ls
  refine ⟨fun id => ?_, ?_, ?_⟩
  · rw [hfiles.registry, Registry.lookup_crossed hkeys (nodup_distinct ids)]
  · rw [hfiles.registry, Registry.identifiers_crossed hkeys (eraseDups_eraseDups _)]
  · have hentries := hfiles.entries
    rw [Registry.length_crossed] at hentries
    split
    · next hnone =>
      refine Report.ext_counter (records_share _) ?_ fun k => ?_
      · rw [hentries, hnone]
        exact Nat.zero_mul _
      · rw [counter_share, faults_ofRecord, if_pos hnone]
        cases k <;> rfl
    · next hsome =>
      refine Report.ext_counter (records_share _) hentries fun k => ?_
      rw [counter_share, faults_ofRecord, if_neg hsome, countP_licenceFaults hls]
      cases k <;> rfl

/-- Serial numbers are brought to their keys, and each part of a record makes a window. -/
theorem Outcome.isProduct_share_map {α : Type} {licence : α → Except RecordFault Licence}
    {window : α → Option Licence} (hwindow : ∀ a, (licence a).toOption = window a)
    (hfault : ∀ a fault, licence a = .error fault → fault.kind = .invalidEmbargo) (record : Nat)
    (serials : List String) (as : List α) :
    (ofRecord record (serials.map Issn.normalize) (as.map licence)).share.IsProduct
      (distinct (serials.map Issn.normalize)) (as.map window) := by
  have hwindows : (as.map licence).map Except.toOption = as.map window := by
    rw [List.map_map]
    exact List.map_congr_left fun a _ => hwindow a
  rw [← hwindows]
  refine isProduct_share ?_ ?_ record
  · exact List.forall_mem_map.mpr fun id _ => Issn.normalize_normalize id
  · exact List.forall_mem_map.mpr fun a _ => hfault a

end Holdings
