import Dossier.Proofs.Reading

namespace Dossier

namespace LexicalRule

open Lexeme

variable {rules : List LexicalRule} {rule other : LexicalRule} {before : Option Char}
  {cs : List Char} {lexeme lexeme' : Lexeme}

/-- The first rule reads a phrase that names a property, the second one the word that it begins
with. -/
structure Article (rule : LexicalRule) (lexeme : Lexeme) (other : LexicalRule)
    (lexeme' : Lexeme) : Prop where
  rule_eq : rule = identifier
  other_eq : other = vocabulary
  phrase : ∃ word : List Char, word ≠ [] ∧ (∀ c ∈ word, Character.isAsciiWord c = true) ∧
    lexeme = ⟨"the ".toList ++ word ++ " of".toList, some (.identifier (String.ofList word))⟩
  article : lexeme' = ⟨"the".toList, some .the⟩

/-- The only word of the vocabulary with which an identifier can begin. -/
theorem eq_the_of_opens {wording : String} (hmem : wording ∈ vocabulary.openings)
    (hbegins : wording.toList <+: cs) (hopens : identifier.Opens cs) : wording = "the" := by
  cases hopens with
  | opening hmem' hbegins' =>
    rcases List.prefix_or_prefix_of_prefix hbegins hbegins' with hle | hle
    · obtain ⟨_, _, hthe⟩ := openings_prefix _ (mem_catalog vocabulary) _
        (mem_catalog identifier) (by simp) _ hmem _ hmem' hle
      exact hthe
    · obtain ⟨hrule, _, _⟩ := openings_prefix _ (mem_catalog identifier) _
        (mem_catalog vocabulary) (by simp) _ hmem' _ hmem hle
      cases hrule

theorem article_of_both (h : identifier.find? before cs = some lexeme)
    (h' : vocabulary.find? before cs = some lexeme') :
    Article identifier lexeme vocabulary lexeme' := by
  obtain ⟨rest, hcs, hmatches⟩ := find?_eq_some_iff.mp h
  obtain ⟨rest', hcs', hmatches'⟩ := find?_eq_some_iff.mp h'
  obtain ⟨wording, token, hmem, rfl⟩ := hmatches'.of_fixed rfl
  obtain rfl : wording = "the" :=
    eq_the_of_opens (openings_of_wording hmem) ⟨rest', hcs'.symm⟩
      (hcs ▸ hmatches.opens (by simp))
  have htoken : ∀ w ∈ Lexeme.vocabulary, w.1 = "the" → w.2 = .the := by decide
  obtain rfl : token = .the := htoken _ hmem rfl
  cases hmatches with
  | wording hmem => cases hmem
  | reference hdigits hparts =>
    have hhead : some 't' = some 'S' := congrArg List.head? (hcs'.symm.trans hcs)
    cases hhead
  | property hword => exact ⟨rfl, rfl, ⟨_, hword.nonempty, hword.all, rfl⟩, rfl⟩

/-- Two rules that both apply at a place are background and any other rule, or `the` and the phrase
that begins with it. -/
theorem article_of_rivals (hne : rule ≠ other) (hrule : rule ≠ background)
    (hother : other ≠ background) (h : rule.find? before cs = some lexeme)
    (h' : other.find? before cs = some lexeme') :
    Article rule lexeme other lexeme' ∨ Article other lexeme' rule lexeme := by
  obtain ⟨rest, hcs, hmatches⟩ := find?_eq_some_iff.mp h
  obtain ⟨rest', hcs', hmatches'⟩ := find?_eq_some_iff.mp h'
  have hopens : rule.Opens cs := hcs ▸ hmatches.opens hrule
  have hopens' : other.Opens cs := hcs' ▸ hmatches'.opens hother
  rcases hopens.eq_or_the hopens' hne with ⟨rfl, rfl⟩ | ⟨rfl, rfl⟩
  · exact .inr (article_of_both h' h)
  · exact .inl (article_of_both h h')

/-- An order of the rules that comes to the phrase before the word with which it begins, and to
background last. -/
structure Ordered (rules : List LexicalRule) : Prop where
  perm : rules.Perm catalog
  article : [identifier, vocabulary].Sublist rules
  last : rules.getLast? = some background

theorem catalog_ordered : Ordered catalog where
  perm := .refl _
  article := by decide
  last := rfl

/-- Where both apply, the first rule has to give way to the second one. -/
inductive Yields : LexicalRule → LexicalRule → Prop
  | background {rule : LexicalRule} (hrule : rule ≠ background) : Yields background rule
  | article : Yields vocabulary identifier

theorem Yields.asymm (h : Yields rule other) : ¬ Yields other rule := by
  intro h'
  cases h with
  | background hrule => cases h'; exact hrule rfl
  | article => cases h'

theorem yields_of_both (hne : rule ≠ other) (h : rule.find? before cs = some lexeme)
    (h' : other.find? before cs = some lexeme') : Yields rule other ∨ Yields other rule := by
  by_cases hrule : rule = background
  · exact .inl (hrule ▸ .background (hrule ▸ hne.symm))
  · by_cases hother : other = background
    · exact .inr (hother ▸ .background (hother ▸ hne))
    · rcases article_of_rivals hne hrule hother h h' with harticle | harticle
      · rw [harticle.rule_eq, harticle.other_eq]
        exact .inr .article
      · rw [harticle.rule_eq, harticle.other_eq]
        exact .inl .article

theorem mem_applicable_iff : (rule, lexeme) ∈ applicable rules before cs ↔
    rule ∈ rules ∧ rule.find? before cs = some lexeme := by
  simp only [applicable, List.mem_filterMap, Option.map_eq_some_iff, Prod.mk.injEq]
  constructor
  · intro ⟨found, hmem, lexeme', hfind, hrule, hlexeme⟩
    subst hrule hlexeme
    exact ⟨hmem, hfind⟩
  · intro ⟨hmem, hfind⟩
    exact ⟨rule, hmem, lexeme, hfind, rfl, rfl⟩

/-- Of the rules besides background any two that apply are `the` and the phrase with it. -/
theorem pairwise_applicable (hnodup : rules.Nodup)
    (hforeground : ∀ rule ∈ rules, rule ≠ background) :
    (applicable rules before cs).Pairwise fun a b =>
      Article a.1 a.2 b.1 b.2 ∨ Article b.1 b.2 a.1 a.2 := by
  rw [applicable, List.pairwise_filterMap]
  refine hnodup.imp_of_mem fun hrule hother hne a ha b hb => ?_
  obtain ⟨lexeme, hfind, rfl⟩ := Option.map_eq_some_iff.mp ha
  obtain ⟨lexeme', hfind', rfl⟩ := Option.map_eq_some_iff.mp hb
  exact article_of_rivals hne (hforeground _ hrule) (hforeground _ hother) hfind hfind'

theorem head?_applicable (rules : List LexicalRule) (before : Option Char) (cs : List Char) :
    (applicable rules before cs).head? = winner? rules before cs :=
  List.head?_filterMap

namespace Ordered

theorem nodup (h : Ordered rules) : rules.Nodup :=
  h.perm.nodup_iff.mpr (by decide)

theorem mem (h : Ordered rules) (rule : LexicalRule) : rule ∈ rules :=
  h.perm.mem_iff.mpr (mem_catalog rule)

/-- What stands in front of a cut is earlier in line than what stands behind it. -/
theorem earlier_of_cut (h : Ordered rules) {front back : List LexicalRule}
    (hcut : rules = front ++ back) (hother : other ∈ front) (hrule : rule ∈ back) :
    other ∈ rules.takeWhile (· ≠ rule) := by
  have hapart := (List.nodup_append.mp (hcut ▸ h.nodup)).2.2
  have hfront : ∀ r ∈ front, decide (r ≠ rule) = true :=
    fun r hr => decide_eq_true (hapart r hr rule hrule)
  rw [hcut, List.takeWhile_append_of_pos hfront]
  exact List.mem_append_left _ hother

theorem earlier (h : Ordered rules) (hyields : Yields rule other) :
    other ∈ rules.takeWhile (· ≠ rule) := by
  cases hyields with
  | background hother =>
    have hcut := (List.dropLast_append_getLast? background h.last).symm
    refine h.earlier_of_cut hcut ?_ (List.mem_singleton_self _)
    have hmem := h.mem other
    rw [hcut, List.mem_append, List.mem_singleton] at hmem
    exact hmem.resolve_right hother
  | article =>
    obtain ⟨front, back, hcut, hmem, hback⟩ := List.cons_sublist_iff.mp h.article
    exact h.earlier_of_cut hcut hmem (List.singleton_sublist.mp hback)

/-- The winner is the rule that applies and gives way to no other one that does. The order of the
rules is not mentioned. -/
theorem winner?_eq_some_iff (h : Ordered rules) :
    winner? rules before cs = some (rule, lexeme) ↔
      rule.find? before cs = some lexeme ∧
        ∀ other lexeme', other.find? before cs = some lexeme' → other ≠ rule →
          Yields other rule := by
  have hlater : ∀ {rule lexeme}, winner? rules before cs = some (rule, lexeme) →
      ∀ other lexeme', other.find? before cs = some lexeme' → other ≠ rule →
        Yields other rule := by
    intro rule lexeme hwinner other lexeme' hother hne
    rcases yields_of_both hne hother (find?_of_winner? hwinner) with hyields | hyields
    · exact hyields
    · rw [declines_of_earlier hwinner (h.earlier hyields)] at hother
      cases hother
  constructor
  · intro hwinner
    exact ⟨find?_of_winner? hwinner, hlater hwinner⟩
  · rintro ⟨hfind, hfirst⟩
    cases hwinner : winner? rules before cs with
    | none =>
      have hnone := List.findSome?_eq_none_iff.mp hwinner rule (h.mem rule)
      rw [hfind] at hnone
      cases hnone
    | some found =>
      obtain ⟨rule', lexeme'⟩ := found
      have hfind' := find?_of_winner? hwinner
      by_cases hsame : rule' = rule
      · subst hsame
        rw [hfind, Option.some.injEq] at hfind'
        rw [hfind']
      · -- each of the two would have to give way to the other one
        exact absurd (hfirst _ _ hfind' hsame) (hlater hwinner _ _ hfind (Ne.symm hsame)).asymm

theorem winner?_eq (h : Ordered rules) (before : Option Char) (cs : List Char) :
    winner? rules before cs = winner? catalog before cs := by
  apply Option.ext
  rintro ⟨rule, lexeme⟩
  rw [h.winner?_eq_some_iff, catalog_ordered.winner?_eq_some_iff]

/-- The first rule that applies is not the word where the phrase applies as well. -/
theorem article_of_first (h : Ordered rules) {others : List (LexicalRule × Lexeme)}
    (hfirst : applicable rules before cs = (rule, lexeme) :: others)
    (hmem : (other, lexeme') ∈ others)
    (hpair : Article rule lexeme other lexeme' ∨ Article other lexeme' rule lexeme) :
    Article rule lexeme other lexeme' := by
  rcases hpair with harticle | harticle
  · exact harticle
  · obtain ⟨rfl, rfl, _, _⟩ := harticle
    have hwinner : winner? rules before cs = some (vocabulary, lexeme) := by
      rw [← head?_applicable, hfirst]
      rfl
    have happlies : (identifier, lexeme') ∈ applicable rules before cs := by simp [hfirst, hmem]
    have hyields := (h.winner?_eq_some_iff.mp hwinner).2 identifier lexeme'
      (mem_applicable_iff.mp happlies).2 (by decide)
    cases hyields

/-- At a place there applies background alone, or one more rule, or both `the` and the phrase that
begins with it. -/
theorem applicable_cases (h : Ordered rules) (before : Option Char) (c : Char) (cs : List Char) :
    applicable rules before (c :: cs) = [(background, ⟨[c], none⟩)] ∨
      (∃ rule lexeme,
        applicable rules before (c :: cs) = [(rule, lexeme), (background, ⟨[c], none⟩)]) ∨
      ∃ phrase article, Article identifier phrase vocabulary article ∧
        applicable rules before (c :: cs) =
          [(identifier, phrase), (vocabulary, article), (background, ⟨[c], none⟩)] := by
  obtain ⟨front, hrules⟩ : ∃ front, rules = front ++ [background] :=
    ⟨_, (List.dropLast_append_getLast? background h.last).symm⟩
  have hsplit : applicable rules before (c :: cs) =
      applicable front before (c :: cs) ++ [(background, ⟨[c], none⟩)] := by
    rw [hrules, applicable, List.filterMap_append]
    rfl
  obtain ⟨hfront, _, hapart⟩ := List.nodup_append.mp (hrules ▸ h.nodup)
  have hrivals : (applicable front before (c :: cs)).Pairwise fun a b =>
      Article a.1 a.2 b.1 b.2 ∨ Article b.1 b.2 a.1 a.2 :=
    pairwise_applicable hfront fun rule hrule => hapart rule hrule _ (List.mem_singleton_self _)
  cases hfound : applicable front before (c :: cs) with
  | nil => exact .inl (by rw [hsplit, hfound]; rfl)
  | cons first others =>
    obtain ⟨rule, lexeme⟩ := first
    rw [hfound] at hsplit hrivals
    obtain ⟨hfirst, hothers⟩ := List.pairwise_cons.mp hrivals
    cases others with
    | nil => exact .inr (.inl ⟨rule, lexeme, hsplit⟩)
    | cons second others =>
      obtain ⟨other, lexeme'⟩ := second
      have harticle : Article rule lexeme other lexeme' :=
        h.article_of_first hsplit (by simp) (hfirst _ List.mem_cons_self)
      obtain ⟨rfl, rfl, _, _⟩ := id harticle
      cases others with
      | nil => exact .inr (.inr ⟨lexeme, lexeme', harticle, hsplit⟩)
      | cons third others =>
        -- A third one would have to be the word, and the phrase as well.
        have hword : third.1 = vocabulary := by
          rcases hfirst third (by simp) with hthird | hthird
          · exact hthird.other_eq
          · cases hthird.other_eq
        have hphrase : third.1 = identifier := by
          rcases (List.pairwise_cons.mp hothers).1 third List.mem_cons_self with hthird | hthird
          · cases hthird.rule_eq
          · exact hthird.rule_eq
        rw [hword] at hphrase
        cases hphrase

theorem scan_eq (h : Ordered rules) (before : Option Char) (start : Nat) (cs : List Char) :
    Spanned.scan rules before start cs = Spanned.scan catalog before start cs := by
  obtain ⟨lexemes, hreading⟩ := exists_reading before cs
  rw [hreading.scan]
  induction hreading generalizing start with
  | ended => rw [Spanned.scan, Spanned.along]
  | found hwinner hrest ih =>
    rw [← h.winner?_eq] at hwinner
    rw [scan_found hwinner, ih, Spanned.along]

end Ordered

/-- Only `the` and background have rivals that come before them. -/
theorem winner?_of_find? (h : rule.find? before cs = some lexeme) (hrule : rule ≠ background)
    (hvocabulary : rule ≠ vocabulary) : winner? catalog before cs = some (rule, lexeme) := by
  refine catalog_ordered.winner?_eq_some_iff.mpr ⟨h, fun other lexeme' hother hne => ?_⟩
  rcases yields_of_both hne hother h with hyields | hyields
  · exact hyields
  · cases hyields with
    | background => exact absurd rfl hrule
    | article => exact absurd rfl hvocabulary

/-- The order of the rules matters in one place only. Two rules besides background apply together
only where the phrase that names a property begins with `the`, and of the words of the vocabulary
only one can stand at a place. So every order that comes to the phrase before the word and to
background last reads the same tokens. -/
theorem order_matters_once :
    (∀ text offset rule lexeme other lexeme', rule ≠ other → rule ≠ background →
      other ≠ background → findAt? text offset rule = some lexeme →
        findAt? text offset other = some lexeme' →
          Article rule lexeme other lexeme' ∨ Article other lexeme' rule lexeme) ∧
      (∀ a ∈ Lexeme.vocabulary, ∀ b ∈ Lexeme.vocabulary, a.1.toList <+: b.1.toList → a = b) ∧
      (∀ a ∈ Lexeme.vocabulary, ∀ b ∈ Lexeme.vocabulary, ∀ cs, a.1.toList <+: cs →
        b.1.toList <+: cs → a = b) ∧
      ∀ rules, Ordered rules → ∀ text,
        Spanned.scan rules none 0 text.toList = Spanned.ofText text := by
  have hfree := wordings_prefixFree vocabulary
  refine ⟨?_, hfree, ?_, fun rules h text => h.scan_eq _ _ _⟩
  · intro text offset rule lexeme other lexeme' hne hrule hother h h'
    obtain ⟨⟨before, cs⟩, hplace, hfind⟩ := Option.bind_eq_some_iff.mp h
    obtain ⟨⟨before', cs'⟩, hplace', hfind'⟩ := Option.bind_eq_some_iff.mp h'
    cases hplace.symm.trans hplace'
    exact article_of_rivals hne hrule hother hfind hfind'
  · rintro a ha b hb cs ⟨rest, hrest⟩ ⟨rest', hrest'⟩
    exact hfree.eq_of_append ha hb (hrest.trans hrest'.symm)

/-- A phrase with its article, and an order with nearly everything turned around. -/
theorem order_matters_once_before_property :
    (Article identifier ⟨"the x of".toList, some (.identifier "x")⟩
        vocabulary ⟨"the".toList, some .the⟩ ∨
      Article vocabulary ⟨"the".toList, some .the⟩
        identifier ⟨"the x of".toList, some (.identifier "x")⟩) ∧
      ("the".toList <+: "the".toList ∧ ("the", Token.the) = ("the", .the)) ∧
      ("the".toList <+: "the x of".toList ∧ ("the", Token.the) = ("the", .the)) ∧
      Spanned.scan [numeral, loneLetter, identifier, vocabulary, constant, addendum, footnoteEnd,
        footnoteStart, description, procedures, objectClass, itemNumber, background] none 0
          "see the x of 12".toList = Spanned.ofText "see the x of 12" := by
  have hmem : ("the", Token.the) ∈ Lexeme.vocabulary := by decide
  have hbegins : "the".toList <+: "the x of".toList := by decide
  obtain ⟨hrivals, hfree, hunique, horders⟩ := order_matters_once
  refine ⟨hrivals "see the x of 12" 4 _ _ _ _ (by decide) (by decide) (by decide)
    (by decide +kernel) (by decide +kernel), ⟨List.prefix_rfl, ?_⟩, ⟨hbegins, ?_⟩, ?_⟩
  · exact hfree _ hmem _ hmem List.prefix_rfl
  · exact hunique _ hmem _ hmem _ hbegins hbegins
  · exact horders _ ⟨by decide, by decide, rfl⟩ _

end LexicalRule

end Dossier
