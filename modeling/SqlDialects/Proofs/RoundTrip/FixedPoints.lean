import Mathlib
import SqlDialects.Proofs.Render.Canonical
import SqlDialects.Proofs.Render.Parsed
import SqlDialects.Proofs.RoundTrip.Nodes
import SqlDialects.Proofs.RoundTrip.Statements

/-!
# Reading what has been written from what has been read

In a dialect with backticks, the text of a statement that has been read is read as the canonical
tree, whose text is the same. The generators of lateral views make the one exception.
-/

namespace SqlDialects.Statement

variable {d : Dialect} {text t : String} {a : Statement}

/-- Whatever is read is readable. -/
theorem readable_of_parse (h : parse d text = .ok a) : ∀ n ∈ a.nodes, n.Readable d := fun n hn =>
  (sound_of_parse (fun _ => TokenStream.within_ofText) h n hn).readable

theorem parse_render_iff_of_backtick {b : Statement} (hq : d.identifierQuote = '\x60')
    (h : parse d text = .ok a) (ht : a.render d = .ok t) :
    parse d t = .ok b ↔ (∀ v ∈ a.views, v.IsReadable) ∧ b = a.canonical :=
  parse_render_iff (.inl hq) (readable_of_parse h) (fun hd => absurd (hq.symm.trans hd) (by decide))
    ht

/-- The text of a statement without lateral views is read as its canonical tree, and this has the
same text. -/
theorem parse_render_eq_canonical (hq : d.identifierQuote = '\x60') (h : parse d text = .ok a)
    (hviews : a.views = []) (ht : a.render d = .ok t) :
    parse d t = .ok a.canonical ∧ a.canonical.render d = .ok t :=
  ⟨(parse_render_iff_of_backtick hq h ht).mpr ⟨by simp [hviews], rfl⟩,
    (render_canonical d a).trans ht⟩

/-- A call and an ordering, both not yet canonical. -/
def sortedCall : Statement :=
  .select ⟨false, [⟨.call ⟨"f", [], false, false, none⟩, none⟩], none, [], none, [], none,
    some (.orderBy [⟨.column [] "a", none, none⟩]), none⟩

theorem parse_render_sortedCall :
    parse .spark "SELECT f() ORDER BY a" = .ok sortedCall ∧ sortedCall.views = [] ∧
      parse .spark "SELECT F() ORDER BY \x60a\x60 ASC" = .ok sortedCall.canonical := by
  have h : parse .spark "SELECT f() ORDER BY a" = .ok sortedCall := by cbv
  have ht : sortedCall.render .spark = .ok "SELECT F() ORDER BY \x60a\x60 ASC" := by cbv
  exact ⟨h, rfl, (parse_render_eq_canonical rfl h rfl ht).1⟩

/-- The text of a statement is read again exactly if the generator of each lateral view is read as
what it is; the lateral views are then those of the statement. -/
theorem exists_parse_render_iff (hq : d.identifierQuote = '\x60') (h : parse d text = .ok a)
    (ht : a.render d = .ok t) :
    ((∃ b, parse d t = .ok b) ↔ ∀ v ∈ a.views, v.IsReadable) ∧
      ∀ b, parse d t = .ok b → b = a.canonical ∧ b.views = a.views.map (·.canonical) := by
  have hiff {b : Statement} := parse_render_iff_of_backtick (b := b) hq h ht
  refine ⟨⟨fun ⟨b, hb⟩ => (hiff.mp hb).1, fun hviews => ⟨_, hiff.mpr ⟨hviews, rfl⟩⟩⟩, fun b hb => ?_⟩
  obtain ⟨-, rfl⟩ := hiff.mp hb
  exact ⟨rfl, a.views_canonical⟩

/-- A lateral view whose generator is named `left`. -/
def leftView : Statement :=
  .select ⟨false, [⟨.column [] "a", none⟩], some ⟨.table none "t" none, []⟩,
    [⟨false, ⟨"left", [.column [] "x"], false, false, none⟩, "v", ["c"]⟩], none, [], none, none, none⟩

/-- The name `left` is quoted where it is read, and a reserved word where it is written. -/
theorem not_exists_parse_render_leftView :
    parse .spark "SELECT a FROM t LATERAL VIEW \x60left\x60(x) v AS c" = .ok leftView ∧
      leftView.render .spark = .ok ("SELECT \x60a\x60 FROM \x60t\x60 LATERAL VIEW " ++
        "LEFT(\x60x\x60) \x60v\x60 AS \x60c\x60") ∧
      ¬ ∃ b, parse .spark ("SELECT \x60a\x60 FROM \x60t\x60 LATERAL VIEW " ++
        "LEFT(\x60x\x60) \x60v\x60 AS \x60c\x60") = .ok b := by
  have h : parse .spark "SELECT a FROM t LATERAL VIEW \x60left\x60(x) v AS c" = .ok leftView := by
    cbv
  have ht : leftView.render .spark = .ok ("SELECT \x60a\x60 FROM \x60t\x60 LATERAL VIEW " ++
      "LEFT(\x60x\x60) \x60v\x60 AS \x60c\x60") := by cbv
  refine ⟨h, ht, fun hb => ?_⟩
  have hviews := (exists_parse_render_iff rfl h ht).1.mp hb
  have hside : ¬ IsSideFunction "left" := (hviews _ (List.mem_singleton_self _)).1
  exact hside (.inl (by decide +kernel))

end SqlDialects.Statement
