import Holdings.Format.Ezb
import Holdings.Format.Google
import Holdings.Proofs.Children
/-!
# What an element says

The contents of a holding and of an item, and when an element has them in it: a part that may be
left out stands in it once or not at all, and the items of each list are its children of one name
in their order, whatever stands between them. An element that has contents in it is read as just these
(`Ezb.Contents.In.holding?_eq`, `Google.Contents.In.item?_eq`), from the innermost parts outwards.
-/

namespace Holdings

open Xml

/-! ## EZB -/

namespace Ezb

/-- An element says where an entitlement begins or ends. -/
@[mk_iff]
structure Boundary.In (b : Boundary) (n : Node) : Prop where
  regular : n.Regular []
  year : n.Says "year" b.year
  volume : n.Says "volume" b.volume
  issue : n.Says "issue" b.issue
  delay : n.Says "delay" b.delay

deriving instance DecidableEq for Boundary

instance (b : Boundary) (n : Node) : Decidable (b.In n) :=
  decidable_of_iff' _ (Boundary.in_iff b n)

/-- An element says an entitlement, with both ends or without. -/
@[mk_iff]
structure Entitlement.In (e : Entitlement) (n : Node) : Prop where
  regular : n.Regular []
  first : n.Holds "begin" (e.first = .missing) e.first.In
  last : n.Holds "end" (e.last = .missing) e.last.In

instance (e : Entitlement) (n : Node) : Decidable (e.In n) :=
  decidable_of_iff' _ (Entitlement.in_iff e n)

/-- What a holding says. -/
structure Contents where
  print : List String
  electronic : List String
  entitlements : List Entitlement

/-- An element says what a holding says. -/
@[mk_iff]
structure Contents.In (c : Contents) (n : Node) : Prop where
  regular : n.Regular []
  serials : n.Holds "EZBIssns" (c.print = [] ∧ c.electronic = []) fun x =>
    x.Regular ["p-issn", "e-issn"] ∧ x.Lists "p-issn" c.print ∧ x.Lists "e-issn" c.electronic
  entitlements : n.Holds "entitlements" (c.entitlements = []) fun x =>
    x.Regular ["entitlement"] ∧ List.Forall₂ Entitlement.In c.entitlements (x.named "entitlement")

instance (c : Contents) (n : Node) : Decidable (c.In n) :=
  decidable_of_iff' _ (Contents.in_iff c n)

theorem Boundary.In.boundary?_eq {b : Boundary} {n : Node} (h : b.In n) :
    boundary? n = some b := by
  have hsingles : ∀ key ∈ ["year", "volume", "issue", "delay"], (n.named key).length ≤ 1 := by
    simp only [List.forall_mem_cons]
    exact ⟨h.year.length_le, h.volume.length_le, h.issue.length_le, h.delay.length_le, nofun⟩
  obtain ⟨fs, hfs, hnodes⟩ := h.regular.exists_fields hsingles
  have hyear := h.year.textOf?_eq (hnodes "year" (by simp))
  have hvolume := h.volume.textOf?_eq (hnodes "volume" (by simp))
  have hissue := h.issue.textOf?_eq (hnodes "issue" (by simp))
  have hdelay := h.delay.textOf?_eq (hnodes "delay" (by simp))
  simp only [boundary?, hfs, hyear, hvolume, hissue, hdelay, Option.bind_eq_bind, Option.bind_some]

theorem childOf?_boundary {b : Boundary} {n : Node} {fs : List Field} {key : String}
    (h : n.Holds key (b = .missing) b.In) (hfs : nodesOf fs key = n.named key) :
    childOf? fs key boundary? .missing = some b :=
  h.childOf?_eq hfs Eq.symm fun _ hx => hx.boundary?_eq

theorem Entitlement.In.entitlement?_eq {e : Entitlement} {n : Node} (h : e.In n) :
    entitlement? n = some e := by
  have hsingles : ∀ key ∈ ["begin", "end"], (n.named key).length ≤ 1 := by
    simp only [List.forall_mem_cons]
    exact ⟨h.first.length_le, h.last.length_le, nofun⟩
  obtain ⟨fs, hfs, hnodes⟩ := h.regular.exists_fields hsingles
  have hfirst := childOf?_boundary h.first (hnodes "begin" (by simp))
  have hlast := childOf?_boundary h.last (hnodes "end" (by simp))
  simp only [entitlement?, hfs, hfirst, hlast, Option.bind_eq_bind, Option.bind_some]

theorem identifiers?_eq {n : Node} {print electronic : List String}
    (h : n.Regular ["p-issn", "e-issn"]) (hprint : n.Lists "p-issn" print)
    (helectronic : n.Lists "e-issn" electronic) :
    identifiers? n = some ((electronic ++ print).map Issn.normalize) := by
  have hsingles : ∀ key ∈ ([] : List String), (n.named key).length ≤ 1 := nofun
  obtain ⟨fs, hfs, hnodes⟩ := h.exists_fields hsingles
  have hprint' := hprint.listOf?_eq (hnodes "p-issn" (by simp))
  have helectronic' := helectronic.listOf?_eq (hnodes "e-issn" (by simp))
  simp only [identifiers?, hfs, hprint', helectronic', Option.bind_eq_bind, Option.bind_some]

theorem entitlements?_eq {n : Node} {es : List Entitlement} (h : n.Regular ["entitlement"])
    (hes : List.Forall₂ Entitlement.In es (n.named "entitlement")) :
    entitlements? n = some es := by
  have hsingles : ∀ key ∈ ([] : List String), (n.named key).length ≤ 1 := nofun
  obtain ⟨fs, hfs, hnodes⟩ := h.exists_fields hsingles
  have hlist : listOf? fs "entitlement" entitlement? = some (es.map id) :=
    Node.listOf?_eq hes (hnodes "entitlement" (by simp)) fun _ _ he => he.entitlement?_eq
  rw [List.map_id] at hlist
  rw [entitlements?, hfs]
  exact hlist

/-- A holding is read as what it says, electronic editions first. -/
theorem Contents.In.holding?_eq {c : Contents} {n : Node} (h : c.In n) (index : Nat) :
    holding? index n = some (.ofRecord index ((c.electronic ++ c.print).map Issn.normalize)
      (c.entitlements.map Entitlement.licence)) := by
  have hsingles : ∀ key ∈ ["EZBIssns", "entitlements"], (n.named key).length ≤ 1 := by
    simp only [List.forall_mem_cons]
    exact ⟨h.serials.length_le, h.entitlements.length_le, nofun⟩
  obtain ⟨fs, hfs, hnodes⟩ := h.regular.exists_fields hsingles
  have hids : childOf? fs "EZBIssns" identifiers? [] =
      some ((c.electronic ++ c.print).map Issn.normalize) := by
    apply h.serials.childOf?_eq (hnodes "EZBIssns" (by simp))
    · rintro ⟨hprint, helectronic⟩
      rw [hprint, helectronic]
      rfl
    · rintro x ⟨hx, hprint, helectronic⟩
      exact identifiers?_eq hx hprint helectronic
  have hentitlements : childOf? fs "entitlements" entitlements? [] = some c.entitlements := by
    apply h.entitlements.childOf?_eq (hnodes "entitlements" (by simp)) Eq.symm
    rintro x ⟨hx, hes⟩
    exact entitlements?_eq hx hes
  simp only [holding?, hfs, hids, hentitlements, Option.bind_eq_bind, Option.bind_some]

/-- The licence of an entitlement, or nothing if its delay is at fault. -/
theorem Entitlement.toOption_licence (e : Entitlement) :
    e.licence.toOption = (Embargo.ofDelay? e.delay).map fun embargo =>
      ⟨e.first.signature, e.last.signature, embargo⟩ := by
  rw [licence, Embargo.readDelay]
  cases Embargo.ofDelay? e.delay <;> rfl

end Ezb

/-! ## Google Scholar -/

namespace Google

/-- One end of a coverage, as written. -/
structure Boundary where
  year : String
  volume : String
  issue : String
deriving DecidableEq

/-- The boundary that is left out. -/
def Boundary.missing : Boundary := ⟨"", "", ""⟩

/-- The signature of a boundary. -/
def Boundary.signature (b : Boundary) : Signature := .parse b.year b.volume b.issue

/-- A span of coverage, as written. -/
structure Coverage where
  first : Boundary
  last : Boundary
  days : String

/-- What an item says. -/
structure Contents where
  serials : List String
  coverages : List Coverage

/-- An element says where a coverage begins or ends. -/
@[mk_iff]
structure Boundary.In (b : Boundary) (n : Node) : Prop where
  regular : n.Regular []
  year : n.Says "year" b.year
  volume : n.Says "volume" b.volume
  issue : n.Says "issue" b.issue

instance (b : Boundary) (n : Node) : Decidable (b.In n) :=
  decidable_of_iff' _ (Boundary.in_iff b n)

/-- An element says a coverage, with each of its parts or without. -/
@[mk_iff]
structure Coverage.In (c : Coverage) (n : Node) : Prop where
  regular : n.Regular []
  first : n.Holds "from" (c.first = .missing) c.first.In
  last : n.Holds "to" (c.last = .missing) c.last.In
  embargo : n.Holds "embargo" (c.days = "") fun x =>
    x.Regular [] ∧ x.Says "days_not_available" c.days

instance (c : Coverage) (n : Node) : Decidable (c.In n) :=
  decidable_of_iff' _ (Coverage.in_iff c n)

/-- An element says what an item says. -/
@[mk_iff]
structure Contents.In (c : Contents) (n : Node) : Prop where
  regular : n.Regular ["issn", "coverage"]
  serials : n.Lists "issn" c.serials
  coverages : List.Forall₂ Coverage.In c.coverages (n.named "coverage")

instance (c : Contents) (n : Node) : Decidable (c.In n) :=
  decidable_of_iff' _ (Contents.in_iff c n)

theorem Boundary.In.boundary?_eq {b : Boundary} {n : Node} (h : b.In n) :
    boundary? n = some b.signature := by
  have hsingles : ∀ key ∈ ["year", "volume", "issue"], (n.named key).length ≤ 1 := by
    simp only [List.forall_mem_cons]
    exact ⟨h.year.length_le, h.volume.length_le, h.issue.length_le, nofun⟩
  obtain ⟨fs, hfs, hnodes⟩ := h.regular.exists_fields hsingles
  have hyear := h.year.textOf?_eq (hnodes "year" (by simp))
  have hvolume := h.volume.textOf?_eq (hnodes "volume" (by simp))
  have hissue := h.issue.textOf?_eq (hnodes "issue" (by simp))
  simp only [boundary?, hfs, hyear, hvolume, hissue, Option.bind_eq_bind, Option.bind_some]
  rfl

theorem childOf?_boundary {b : Boundary} {n : Node} {fs : List Field} {key : String}
    (h : n.Holds key (b = .missing) b.In) (hfs : nodesOf fs key = n.named key) :
    childOf? fs key boundary? missingBoundary = some b.signature := by
  apply h.childOf?_eq hfs
  · intro hmissing
    rw [hmissing]
    rfl
  · intro x hx
    exact hx.boundary?_eq

theorem days?_eq {n : Node} {days : String} (h : n.Regular [])
    (hdays : n.Says "days_not_available" days) : days? n = some days := by
  have hsingles : ∀ key ∈ ["days_not_available"], (n.named key).length ≤ 1 := by
    simp only [List.forall_mem_cons]
    exact ⟨hdays.length_le, nofun⟩
  obtain ⟨fs, hfs, hnodes⟩ := h.exists_fields hsingles
  rw [days?, hfs]
  exact hdays.textOf?_eq (hnodes "days_not_available" (by simp))

theorem Coverage.In.coverage?_eq {c : Coverage} {n : Node} (h : c.In n) :
    coverage? n = some (licence c.first.signature c.last.signature c.days) := by
  have hsingles : ∀ key ∈ ["from", "to", "embargo"], (n.named key).length ≤ 1 := by
    simp only [List.forall_mem_cons]
    exact ⟨h.first.length_le, h.last.length_le, h.embargo.length_le, nofun⟩
  obtain ⟨fs, hfs, hnodes⟩ := h.regular.exists_fields hsingles
  have hfirst := childOf?_boundary h.first (hnodes "from" (by simp))
  have hlast := childOf?_boundary h.last (hnodes "to" (by simp))
  have hdays : childOf? fs "embargo" days? "" = some c.days :=
    h.embargo.childOf?_eq (hnodes "embargo" (by simp)) Eq.symm fun _ hx => days?_eq hx.1 hx.2
  simp only [coverage?, hfs, hfirst, hlast, hdays, Option.bind_eq_bind, Option.bind_some]

/-- An item is read as what it says. -/
theorem Contents.In.item?_eq {c : Contents} {n : Node} (h : c.In n) (index : Nat) :
    item? index n = some (.ofRecord index (c.serials.map Issn.normalize)
      (c.coverages.map fun c => licence c.first.signature c.last.signature c.days)) := by
  have hsingles : ∀ key ∈ ([] : List String), (n.named key).length ≤ 1 := nofun
  obtain ⟨fs, hfs, hnodes⟩ := h.regular.exists_fields hsingles
  have hserials := h.serials.listOf?_eq (hnodes "issn" (by simp))
  have hcoverages := Node.listOf?_eq h.coverages (hnodes "coverage" (by simp))
    fun _ _ hc => hc.coverage?_eq
  simp only [item?, hfs, hserials, hcoverages, Option.bind_eq_bind, Option.bind_some]

/-- The licence of a coverage, or nothing if its days are at fault. -/
theorem toOption_licence (first last : Signature) (days : String) :
    (licence first last days).toOption =
      (Embargo.ofDays? days).map fun embargo => ⟨first, last, embargo⟩ := by
  rw [licence, Embargo.readDays]
  cases Embargo.ofDays? days <;> rfl

end Google

end Holdings
