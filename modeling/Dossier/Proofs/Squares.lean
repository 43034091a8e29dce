import Dossier.Proofs.Memory
import Dossier.Proofs.Yield

namespace Dossier

open Grammar

variable {tokens : List Token} {ctx : Context} {kind word : Kind} {pos : Nat}

/-- Where an optional word stands in front of what it introduces, that is found as if the word were
not there. A word behind it starts the search anew. -/
theorem run_token_behind_word_eq_some_iff {p q : Parsed Token}
    (h : Id.run (token tokens ctx kind pos) = some p) :
    Id.run (token tokens ctx kind ((Id.run (token tokens ctx word pos)).nextOr pos)) = some q ↔
      (q = p ∧ ∀ w, Id.run (token tokens ctx word pos) = some w → w.start < p.start) ∨
        ∃ w, Id.run (token tokens ctx word pos) = some w ∧ p.start ≤ w.start ∧
          Id.run (token tokens ctx kind w.next) = some q := by
  obtain ⟨hfinds, hnext⟩ := run_token_eq_some_iff.mp h
  cases hw : Id.run (token tokens ctx word pos) with
  | none =>
    change Id.run (token tokens ctx kind pos) = some q ↔ _
    rw [h]
    simp [eq_comm]
  | some w =>
    change Id.run (token tokens ctx kind w.next) = some q ↔ _
    obtain ⟨hword, hend⟩ := run_token_eq_some_iff.mp hw
    by_cases hlt : w.start < p.start
    · have hsame : Id.run (token tokens ctx kind w.next) = some p :=
        run_token_eq_some_iff.mpr ⟨hfinds.later (by have hle := hword.le; omega) (by omega), hnext⟩
      rw [hsame]
      simp [hlt, Nat.not_le_of_lt hlt, eq_comm]
    · simp [hlt, Nat.le_of_not_lt hlt]

theorem run_token_behind_word_iff {p : Parsed Token}
    (h : Id.run (token tokens ctx kind pos) = some p) :
    Id.run (token tokens ctx kind ((Id.run (token tokens ctx word pos)).nextOr pos)) = some p ↔
      ∀ w, Id.run (token tokens ctx word pos) = some w → w.start < p.start := by
  rw [run_token_behind_word_eq_some_iff h]
  constructor
  · intro hcases
    rcases hcases with ⟨_, hfront⟩ | ⟨w, hw, hle, hp⟩
    · exact hfront
    · have hend := (run_token_eq_some_iff.mp hw).2
      have hbehind := (run_token_eq_some_iff.mp hp).1.le
      omega
  · intro hfront
    exact .inl ⟨rfl, hfront⟩

theorem run_identifier_behind_word_iff {name : Parsed String}
    (h : Id.run (identifier tokens ctx pos) = some name) :
    Id.run (identifier tokens ctx ((Id.run (token tokens ctx word pos)).nextOr pos)) = some name ↔
      ∀ w, Id.run (token tokens ctx word pos) = some w → w.start < name.start := by
  rw [run_identifier] at h ⊢
  exact run_token_behind_word_iff h

theorem isSome_identifier_behind_word_iff {name : Parsed String}
    (h : Id.run (identifier tokens ctx pos) = some name) :
    (Id.run (identifier tokens ctx
        ((Id.run (token tokens ctx word pos)).nextOr pos))).isSome = true ↔
      ∀ w, Id.run (token tokens ctx word pos) = some w → w.start < name.start ∨
        (Id.run (identifier tokens ctx w.next)).isSome = true := by
  constructor
  · intro hsome w hw
    rw [hw] at hsome
    exact .inr hsome
  · intro hfront
    cases hw : Id.run (token tokens ctx word pos) with
    | none =>
      change (Id.run (identifier tokens ctx pos)).isSome = true
      rw [h]
      rfl
    | some w =>
      rcases hfront w hw with hlt | hsome
      · have hbehind := (run_identifier_behind_word_iff h).mpr fun w' hw' => by
          rw [hw] at hw'
          cases hw'
          exact hlt
        rw [← hw, hbehind]
        rfl
      · exact hsome

theorem startOr_le {outcome : Outcome Token} {stop : Nat}
    (h : ∀ p, outcome = some p → p.start < stop) : outcome.startOr stop ≤ stop := by
  cases outcome with
  | none => exact Nat.le_refl stop
  | some p => exact Nat.le_of_lt (h p rfl)

/-- A name is known by what it is and where it ends. -/
theorem eq_of_run_identifier {index : Nat} {name other : Parsed String}
    (hname : Id.run (identifier tokens ctx pos) = some name)
    (hother : Id.run (identifier tokens ctx index) = some other) (hvalue : name.value = other.value)
    (hnext : name.next = other.next) : name = other := by
  have hend := (run_token_eq_some_iff.mp (run_identifier.mp hname)).2
  have hend' := (run_token_eq_some_iff.mp (run_identifier.mp hother)).2
  obtain ⟨value, start, next⟩ := name
  obtain ⟨value', start', next'⟩ := other
  simp only at hvalue hnext hend hend'
  subst hvalue hnext
  obtain rfl : start = start' := by omega
  rfl

/-- Where the two required parts of a square are found, the square is made up of them exactly if
neither optional word is found behind the part that it introduces. -/
theorem square_extends_iff {phrase : Parsed Token} {name : Parsed String}
    (hphrase : Id.run (token tokens ctx .square pos) = some phrase)
    (hname : Id.run (identifier tokens ctx phrase.next) = some name) :
    (∃ start, start ≤ phrase.start ∧
        Id.run (square tokens ctx pos) = some ⟨.square name.value, start, name.next⟩) ↔
      (∀ the, Id.run (token tokens ctx .the pos) = some the → the.start < phrase.start) ∧
        ∀ of, Id.run (token tokens ctx .of phrase.next) = some of → of.start < name.start := by
  constructor
  · rintro ⟨start, hle, h⟩
    rw [run_square] at h
    obtain ⟨found, hfound, h⟩ := Option.bind_eq_some_iff.mp h
    obtain ⟨foundName, hfoundName, h⟩ := Option.bind_eq_some_iff.mp h
    obtain ⟨hvalue, rfl, hnext⟩ := Parsed.mk.inj (Option.some.inj h)
    have hthe : ∀ the, Id.run (token tokens ctx .the pos) = some the →
        the.start < phrase.start := by
      intro the hthe
      obtain ⟨hfoundThe, _⟩ := run_token_eq_some_iff.mp hthe
      obtain ⟨hfoundPhrase, _⟩ := run_token_eq_some_iff.mp hphrase
      rw [hthe] at hle
      exact Nat.lt_of_le_of_ne hle (hfoundThe.index_ne hfoundPhrase (by simp))
    rw [(run_token_behind_word_iff hphrase).mpr hthe] at hfound
    cases hfound
    have hsame : foundName = name :=
      eq_of_run_identifier hfoundName hname (Expression.square.inj hvalue) hnext
    rw [hsame] at hfoundName
    exact ⟨hthe, (run_identifier_behind_word_iff hname).mp hfoundName⟩
  · rintro ⟨hthe, hof⟩
    have hfound := (run_token_behind_word_iff hphrase).mpr hthe
    have hfoundName := (run_identifier_behind_word_iff hname).mpr hof
    refine ⟨_, startOr_le hthe, ?_⟩
    rw [run_square]
    simp [hfound, hfoundName]

theorem isSome_square_iff : (Id.run (square tokens ctx pos)).isSome = true ↔
    ∃ phrase, Id.run (token tokens ctx .square
        ((Id.run (token tokens ctx .the pos)).nextOr pos)) = some phrase ∧
      (Id.run (identifier tokens ctx
        ((Id.run (token tokens ctx .of phrase.next)).nextOr phrase.next))).isSome = true := by
  rw [run_square]
  constructor
  · intro hsome
    obtain ⟨p, hp⟩ := Option.isSome_iff_exists.mp hsome
    obtain ⟨phrase, hphrase, hp⟩ := Option.bind_eq_some_iff.mp hp
    obtain ⟨name, hname, _⟩ := Option.bind_eq_some_iff.mp hp
    exact ⟨phrase, hphrase, by rw [hname]; rfl⟩
  · intro ⟨phrase, hphrase, hsome⟩
    obtain ⟨name, hname⟩ := Option.isSome_iff_exists.mp hsome
    simp [hphrase, hname]

/-- Where the two required parts of a square are found, there is a square unless an optional word
behind the part that it introduces starts a search that finds nothing. -/
theorem square_succeeds_iff {phrase : Parsed Token} {name : Parsed String}
    (hphrase : Id.run (token tokens ctx .square pos) = some phrase)
    (hname : Id.run (identifier tokens ctx phrase.next) = some name) :
    (Id.run (square tokens ctx pos)).isSome = true ↔
      ((∀ the, Id.run (token tokens ctx .the pos) = some the → the.start < phrase.start) ∧
        ∀ of, Id.run (token tokens ctx .of phrase.next) = some of →
          of.start < name.start ∨ (Id.run (identifier tokens ctx of.next)).isSome = true) ∨
      ∃ the later, Id.run (token tokens ctx .the pos) = some the ∧ phrase.start < the.start ∧
        Id.run (token tokens ctx .square the.next) = some later ∧
        (Id.run (identifier tokens ctx
          ((Id.run (token tokens ctx .of later.next)).nextOr later.next))).isSome = true := by
  rw [isSome_square_iff]
  constructor
  · intro ⟨found, hfound, hrest⟩
    rcases (run_token_behind_word_eq_some_iff hphrase).mp hfound with
      ⟨rfl, hfront⟩ | ⟨the, hthe, hle, hlater⟩
    · exact .inl ⟨hfront, (isSome_identifier_behind_word_iff hname).mp hrest⟩
    · have hne := (run_token_eq_some_iff.mp hphrase).1.index_ne
        (run_token_eq_some_iff.mp hthe).1 (by decide)
      exact .inr ⟨the, found, hthe, Nat.lt_of_le_of_ne hle hne, hlater, hrest⟩
  · intro hcases
    rcases hcases with ⟨hfront, hof⟩ | ⟨the, later, hthe, hlt, hlater, hrest⟩
    · exact ⟨phrase, (run_token_behind_word_eq_some_iff hphrase).mpr (.inl ⟨rfl, hfront⟩),
        (isSome_identifier_behind_word_iff hname).mpr hof⟩
    · exact ⟨later, (run_token_behind_word_eq_some_iff hphrase).mpr
        (.inr ⟨the, hthe, Nat.le_of_lt hlt, hlater⟩), hrest⟩

namespace Production

/-- Where the phrase of a square and behind it a name are found, the square is made up of these two
exactly if no article is found behind the phrase and no preposition behind the name. The article is
looked for from where the square is, the preposition from behind the phrase. -/
theorem square_outcome_extends_iff (tokens : List Token) (ctx : Context) (pos : Nat)
    {phrase : Parsed Token} {name : Parsed String}
    (hphrase : (Production.token .square).outcome tokens ctx pos = some phrase)
    (hname : Production.identifier.outcome tokens ctx phrase.next = some name) :
    (∃ start, start ≤ phrase.start ∧
        Production.square.outcome tokens ctx pos = some ⟨.square name.value, start, name.next⟩) ↔
      (∀ the, (Production.token .the).outcome tokens ctx pos = some the →
        the.start < phrase.start) ∧
      ∀ of, (Production.token .of).outcome tokens ctx phrase.next = some of →
        of.start < name.start := by
  simp only [outcome_eq_run, rule] at hphrase hname ⊢
  exact square_extends_iff hphrase hname

/-- A square with both words in front of what they introduce. -/
theorem square_outcome_extends_over_words :
    ∃ start, start ≤ 1 ∧ Production.square.outcome [.the, .square, .of, .identifier "y"] .root 0 =
      some ⟨.square "y", start, 4⟩ := by
  have hphrase : (Production.token .square).outcome [.the, .square, .of, .identifier "y"] .root 0 =
      some ⟨.square, 1, 2⟩ := by
    rw [outcome_eq_run]
    rfl
  have hname : Production.identifier.outcome [.the, .square, .of, .identifier "y"] .root 2 =
      some ⟨"y", 3, 4⟩ := by
    rw [outcome_eq_run]
    rfl
  refine (square_outcome_extends_iff _ _ _ hphrase hname).mpr ⟨?_, ?_⟩
  · intro the hthe
    rw [outcome_eq_run] at hthe
    cases hthe
    decide
  · intro of hof
    rw [outcome_eq_run] at hof
    cases hof
    decide

/-- Where the phrase of a square and behind it a name are found, there still is a square in two
cases only. Either no article is found behind the phrase, and a preposition behind the name has
another name behind it; or an article is found behind the phrase, and behind the article there are
another phrase and a name of its own. -/
theorem square_outcome_isSome_iff (tokens : List Token) (ctx : Context) (pos : Nat)
    {phrase : Parsed Token} {name : Parsed String}
    (hphrase : (Production.token .square).outcome tokens ctx pos = some phrase)
    (hname : Production.identifier.outcome tokens ctx phrase.next = some name) :
    (Production.square.outcome tokens ctx pos).isSome = true ↔
      ((∀ the, (Production.token .the).outcome tokens ctx pos = some the →
          the.start < phrase.start) ∧
        ∀ of, (Production.token .of).outcome tokens ctx phrase.next = some of →
          of.start < name.start ∨
            (Production.identifier.outcome tokens ctx of.next).isSome = true) ∨
      ∃ the later, (Production.token .the).outcome tokens ctx pos = some the ∧
        phrase.start < the.start ∧
        (Production.token .square).outcome tokens ctx the.next = some later ∧
        (Production.identifier.outcome tokens ctx
          (((Production.token .of).outcome tokens ctx later.next).nextOr later.next)).isSome =
            true := by
  simp only [outcome_eq_run, rule] at hphrase hname ⊢
  exact square_succeeds_iff hphrase hname

/-- An article that stands behind the name makes the square fail. -/
theorem square_outcome_lost_to_article :
    ¬ ∀ (tokens : List Token) (ctx : Context) (pos : Nat) (phrase : Parsed Token)
      (name : Parsed String), (Production.token .square).outcome tokens ctx pos = some phrase →
        Production.identifier.outcome tokens ctx phrase.next = some name →
        (Production.square.outcome tokens ctx pos).isSome = true := by
  intro hall
  have h := hall [.square, .identifier "y", .the] .root 0 ⟨.square, 0, 1⟩ ⟨"y", 1, 2⟩
  simp only [outcome_eq_run] at h
  exact absurd (h rfl rfl) (by decide)

end Production

end Dossier
