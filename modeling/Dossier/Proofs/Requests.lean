import Mathlib.Data.List.Basic
import Dossier.Dump

namespace Dossier

theorem Stage.name_of_ofName? {name : String} {stage : Stage} (h : ofName? name = some stage) :
    stage.name = name := by
  unfold ofName? at h
  split at h <;> cases h <;> rfl

theorem Format.name_of_ofName? {name : String} {format : Format}
    (h : ofName? name = some format) : format.name = name := by
  unfold ofName? at h
  split at h <;> cases h <;> rfl

namespace Spec

variable {request text : String} {spec : Spec} {failure : Failure}

/-- What stands in front of the first hyphen of a request and behind it. -/
theorem split_request {c : Char} {back : List Char}
    (h : request.toList.dropWhile (· != '-') = c :: back) :
    String.ofList (request.toList.takeWhile (· != '-')) ++ "-" ++ String.ofList back = request := by
  obtain rfl : c = '-' := by
    have hhead := List.head?_dropWhile_not (· != '-') request.toList
    rw [h] at hhead
    simpa using hhead
  apply String.toList_inj.mp
  calc (String.ofList (request.toList.takeWhile (· != '-')) ++ "-" ++ String.ofList back).toList
      = request.toList.takeWhile (· != '-') ++ '-' :: back := by simp
    _ = request.toList := by rw [← h, List.takeWhile_append_dropWhile]

/-- A request that is understood is the name of an available spec. -/
theorem available_of_ofName (h : ofName request = .ok spec) :
    spec ∈ available ∧ spec.name = request := by
  unfold ofName at h
  simp only [] at h
  split at h
  · cases h
  · next c back hback =>
    split at h
    · next stage hstage =>
      split at h
      · next format hformat =>
        have hname : (Spec.mk stage format).name = request := by
          rw [name, Stage.name_of_ofName? hstage, Format.name_of_ofName? hformat,
            split_request hback]
        have hspec : Spec.mk stage format ∈ available ∧ Spec.mk stage format = spec := by
          cases stage <;> cases format <;> cases h <;> exact ⟨by decide, rfl⟩
        obtain ⟨hmem, rfl⟩ := hspec
        exact ⟨hmem, hname⟩
      · cases h
    · cases h

theorem ofName_of_available (h : spec ∈ available) : ofName spec.name = .ok spec := by
  simp only [available, List.mem_cons, List.not_mem_nil, or_false] at h
  rcases h with rfl | rfl | rfl | rfl | rfl | rfl <;> rfl

theorem ofName_eq_ok_iff : ofName request = .ok spec ↔ spec ∈ available ∧ spec.name = request := by
  constructor
  · exact available_of_ofName
  · rintro ⟨hmem, rfl⟩
    exact ofName_of_available hmem

theorem exists_dump_of_tokens {format : Format} (h : Spec.mk .tokens format ∈ available)
    (text : String) : ∃ output, Dump.ofText ⟨.tokens, format⟩ text = .ok output := by
  cases format with
  | simple | json | rawSimple => exact ⟨_, rfl⟩
  | tag | outline => simp [available] at h

theorem exists_dump_of_document {format : Format} (h : Spec.mk .tree format ∈ available)
    (doc : Document) : ∃ output, Dump.ofDocument format doc = .ok output := by
  cases format with
  | json | tag | outline => exact ⟨_, rfl⟩
  | simple | rawSimple => simp [available] at h

/-- An available spec fails for want of a document only. -/
theorem dump_eq_error_iff (h : spec ∈ available) : Dump.ofText spec text = .error failure ↔
    spec.stage = .tree ∧ ∃ error, Document.ofText text = .error error ∧ failure = .parse error := by
  obtain ⟨stage, format⟩ := spec
  cases stage with
  | tokens =>
    obtain ⟨output, houtput⟩ := exists_dump_of_tokens h text
    simp [houtput]
  | tree =>
    simp only [Dump.ofText, true_and]
    cases Document.ofText text with
    | error error => simp [eq_comm]
    | ok doc =>
      obtain ⟨output, houtput⟩ := exists_dump_of_document h doc
      simp [houtput]

/-- A dump that does not fail is there. -/
theorem exists_dump_iff (h : spec ∈ available) : (∃ output, Dump.ofText spec text = .ok output) ↔
    ¬ (spec.stage = .tree ∧ ∃ error, Document.ofText text = .error error) := by
  constructor
  · rintro ⟨output, houtput⟩ ⟨hstage, error, herror⟩
    have hfails := dump_eq_error_iff h |>.mpr ⟨hstage, error, herror, rfl⟩
    rw [houtput] at hfails
    cases hfails
  · intro hdoc
    cases hdump : Dump.ofText spec text with
    | ok output => exact ⟨output, rfl⟩
    | error failure =>
      obtain ⟨hstage, error, herror, _⟩ := (dump_eq_error_iff h).mp hdump
      exact absurd ⟨hstage, error, herror⟩ hdoc

/-- What is understood is what is available and what is answered. The requests that are understood
are the names on the list, each one the name of the spec it is read as. Such a spec has a dump of
every text, except that there is no tree to show of a text without a document; then the parse error
is all that is said. -/
theorem ofName_agrees (request : String) :
    ((∃ spec, ofName request = .ok spec) ↔ request ∈ available.map name) ∧
    ∀ spec, ofName request = .ok spec → spec.name = request ∧ ∀ text,
      ((∃ output, Dump.ofText spec text = .ok output) ↔
        ¬ (spec.stage = .tree ∧ ∃ error, Document.ofText text = .error error)) ∧
      ∀ failure, Dump.ofText spec text = .error failure ↔
        spec.stage = .tree ∧
          ∃ error, Document.ofText text = .error error ∧ failure = .parse error := by
  refine ⟨?_, fun spec hspec => ?_⟩
  · simp only [ofName_eq_ok_iff, List.mem_map]
  · obtain ⟨hmem, hname⟩ := available_of_ofName hspec
    exact ⟨hname, fun text => ⟨exists_dump_iff hmem, fun failure => dump_eq_error_iff hmem⟩⟩

theorem ofName_agrees_on_nonsense :
    ofName "ast-treeviz" = .ok ⟨.tree, .outline⟩ ∧
      Dump.ofText ⟨.tree, .outline⟩ "Nothing to see here!" = .error (.parse (.noDocument 0)) := by
  have hspec : ofName "ast-treeviz" = .ok ⟨.tree, .outline⟩ := rfl
  have htokens : Token.ofText "Nothing to see here!" = [] := by decide +kernel
  have hdoc : Document.ofText "Nothing to see here!" = .error (.noDocument 0) := by
    rw [Document.ofText, htokens]
    rfl
  have hanswers := ((ofName_agrees _).2 _ hspec).2 "Nothing to see here!"
  exact ⟨hspec, (hanswers.2 _).mpr ⟨rfl, _, hdoc, rfl⟩⟩

end Spec

end Dossier
