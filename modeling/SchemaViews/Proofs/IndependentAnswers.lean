import SchemaViews.Proofs.SessionAnswers

/-!
# Answers without a past

The modules of both views are emitted one after the other into the same place, and a
failure leaves there whatever was emitted before it.  No module depends on this:
each starts a new emission.  So sessions that differ in nothing but their emissions
answer alike and stay alike, and as long as no setting is changed every answer is
the one that a new session gives.
-/

namespace SchemaViews

/-! ## Calls on an emission -/

namespace Emission

inductive Call
  | translate (hint : String) (type : TypeExpr)
  | generate (outline : Outline)

def perform (withDescriptions : Bool) : Call → Emit String
  | .translate hint type => Emit.translate hint type
  | .generate outline => Emit.generate withDescriptions outline

/-- The emission behind a list of calls, of which any may have failed. -/
def after (withDescriptions : Bool) (e : Emission) (calls : List Call) : Emission :=
  calls.foldl (fun e call => ((perform withDescriptions call).run e).2) e

end Emission

theorem Emit.generate_run_congr (withDescriptions : Bool) (outline : Outline)
    (e e' : Emission) :
    (Emit.generate withDescriptions outline).run e =
      (Emit.generate withDescriptions outline).run e' := rfl

/-! ## Sessions that differ in their emissions -/

def Request.Asks : Request → Prop
  | .assign _ _ => False
  | .names | .compile _ | .compileSchema _ _ | .outline _ _ | .generate _ _
  | .fileName _ => True

instance : DecidablePred Request.Asks
  | .assign _ _ => isFalse id
  | .names | .compile _ | .compileSchema _ _ | .outline _ _ | .generate _ _
  | .fileName _ => isTrue trivial

namespace Session

def answers (s : Session) : List Request → List (Except Failure Reply)
  | [] => []
  | request :: rest => (s.answer request).1 :: (s.answer request).2.answers rest

def Alike (s t : Session) : Prop :=
  ∃ e, t = { s with emission := e }

namespace Alike

variable {s t u : Session}

theorem refl (s : Session) : s.Alike s :=
  ⟨s.emission, rfl⟩

theorem symm (h : s.Alike t) : t.Alike s := by
  obtain ⟨e, rfl⟩ := h
  exact ⟨s.emission, rfl⟩

theorem trans (hfirst : s.Alike t) (hsecond : t.Alike u) : s.Alike u := by
  obtain ⟨e, rfl⟩ := hfirst
  obtain ⟨e', rfl⟩ := hsecond
  exact ⟨e', rfl⟩

theorem generate (s : Session) (mode : Value) (comment : String) :
    s.Alike (s.generate mode comment).2 :=
  s.generate_keeps mode comment

theorem answer (h : s.Alike t) (request : Request) :
    (s.answer request).1 = (t.answer request).1 ∧
      (s.answer request).2.Alike (t.answer request).2 := by
  obtain ⟨e, rfl⟩ := h
  have hself : s.Alike { s with emission := e } := ⟨e, rfl⟩
  cases request with
  | generate mode comment =>
      refine ⟨?_, (generate s mode comment).symm.trans (hself.trans (generate _ _ _))⟩
      exact congrArg (Reply.text <$> ·) (generate_emission s e mode comment).symm
  | assign key value =>
      unfold Session.answer
      dsimp only
      split
      · exact ⟨rfl, e, rfl⟩
      · exact ⟨rfl, hself⟩
  | names | compile | compileSchema | outline | fileName => exact ⟨rfl, hself⟩

theorem answers (h : s.Alike t) (requests : List Request) :
    s.answers requests = t.answers requests := by
  induction requests generalizing s t with
  | nil => rfl
  | cons request rest ih =>
      obtain ⟨hanswer, hnext⟩ := h.answer request
      rw [Session.answers, Session.answers, hanswer, ih hnext]

theorem of_asks (s : Session) {request : Request} (hasks : request.Asks) :
    s.Alike (s.answer request).2 := by
  cases request with
  | generate mode comment => exact generate s mode comment
  | assign key value => exact hasks.elim
  | names | compile | compileSchema | outline | fileName => exact refl s

end Alike

/-- While no setting is changed, each request is answered as if it were the first. -/
theorem answers_eq_map (s : Session) {requests : List Request}
    (hasks : ∀ request ∈ requests, request.Asks) :
    s.answers requests = requests.map fun request => (s.answer request).1 := by
  induction requests with
  | nil => rfl
  | cons request rest ih =>
      rw [List.forall_mem_cons] at hasks
      obtain ⟨hfirst, hrest⟩ := hasks
      have hnext := (Alike.of_asks s hfirst).answers rest
      rw [answers, ← hnext, ih hrest, List.map_cons]

end Session

/-- Whatever was asked before, a module is generated as by a new emission, and a
request that changes no setting is answered as by a new session. -/
theorem answers_as_new :
    (∀ (withDescriptions : Bool) (calls : List Emission.Call) (outline : Outline),
      (Emit.generate withDescriptions outline).run
          (Emission.after withDescriptions (.start (.str "")) calls) =
        (Emit.generate withDescriptions outline).run (.start (.str ""))) ∧
    ∀ (document : Value) (settings : Settings) (installed : Formatters) (new : Session),
      Session.ofDocument document settings installed = .ok new →
        ∀ (calls : List Emission.Call) (requests : List Request),
          (∀ request ∈ requests, request.Asks) →
            Session.answers { new with
                emission := .after new.withDescriptions new.emission calls } requests =
              requests.map fun request => (new.answer request).1 := by
  constructor
  · intro withDescriptions calls outline
    exact Emit.generate_run_congr withDescriptions outline _ _
  · intro document settings installed new _ calls requests hasks
    have halike : new.Alike { new with
        emission := .after new.withDescriptions new.emission calls } := ⟨_, rfl⟩
    rw [← halike.answers requests, new.answers_eq_map hasks]

theorem answers_as_new_person :
    let document : Value := .map [(.str "components", .map [(.str "schemas", .map
      [(.str "Person", .map
        [(.str "type", .str "object"),
          (.str "properties", .map [(.str "name", .map [(.str "type", .str "string")])])])])])]
    let calls : List Emission.Call :=
      [.translate "Person" (.struct
        [⟨.str "home", false, .struct []⟩, ⟨.str "name", false, .missing⟩])]
    let requests : List Request :=
      [.generate (.str "read") "", .names, .generate (.str "write") "",
        .generate (.str "read") ""]
    let text := "from __future__ import annotations\n\n" ++
      "from typing import NotRequired, TypedDict\n\n\n" ++
      "class Person(TypedDict):\n    name: NotRequired[str]\n"
    ∃ new, Session.ofDocument document {} (fun _ => none) = .ok new ∧
      (Emission.after new.withDescriptions new.emission calls).used =
          ["Person", "PersonHome"] ∧
        Session.answers { new with
            emission := .after new.withDescriptions new.emission calls } requests =
          [.ok (.text text), .ok (.names [.str "Person"]), .ok (.text text),
            .ok (.text text)] := by
  intro document calls requests text
  obtain ⟨new, hnew, hused, hread, hwrite, hnames⟩ : ∃ new,
      Session.ofDocument document {} (fun _ => none) = .ok new ∧
        (Emission.after new.withDescriptions new.emission calls).used =
            ["Person", "PersonHome"] ∧
          (new.generate (.str "read") "").1 = .ok text ∧
            (new.generate (.str "write") "").1 = .ok text ∧
              new.names = .ok [.str "Person"] := by
    refine ⟨_, rfl, ?_, ?_, ?_, ?_⟩ <;> decide +kernel
  have hasks : ∀ request ∈ requests, request.Asks := by decide
  refine ⟨new, hnew, hused, ?_⟩
  rw [answers_as_new.2 document {} _ new hnew calls requests hasks]
  simp only [requests, List.map_cons, List.map_nil, Session.answer, hread, hwrite, hnames]
  rfl

end SchemaViews
