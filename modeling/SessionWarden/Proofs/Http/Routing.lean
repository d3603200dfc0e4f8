import SessionWarden.Proofs.Http.Handling
/-!
# Where a request goes

A request is admitted by one endpoint at most. What it comes to is what it comes to there; if it is refused there, it
is refused by all, and the refusals are answered together.
-/

namespace SessionWarden

variable {s : Service} {r : Request}

namespace Endpoint

theorem mem_all (e : Endpoint) : e ∈ all := by cases e <;> decide

theorem check_eq_ok_iff {e : Endpoint} : e.check r = .ok () ↔ r.method = e.method ∧ r.segments = e.path := by
  unfold check
  by_cases hmethod : r.method = e.method
  · by_cases hpath : r.segments = e.path
    · simp [hmethod, hpath]
    · simp [hmethod, hpath]
  · simp [hmethod]

theorem eq_of_path_eq {e e' : Endpoint} (h : e.path = e'.path) : e = e' := by
  cases e <;> cases e' <;> first | rfl | exact absurd h (by decide)

theorem eq_of_check {e e' : Endpoint} (h : e.check r = .ok ()) (h' : e'.check r = .ok ()) : e = e' :=
  eq_of_path_eq ((check_eq_ok_iff.mp h).2.symm.trans (check_eq_ok_iff.mp h').2)

/-- The refusals of a request by those of some endpoints that it is not meant for. -/
def refusals (r : Request) (endpoints : List Endpoint) : List Refusal :=
  endpoints.filterMap fun e => match e.check r with
    | .error refusal => some refusal
    | .ok () => none

end Endpoint

theorem consultFrom_append {front : List Endpoint} (h : ∀ e ∈ front, e.check r ≠ .ok ()) (refusals : List Refusal)
    (back : List Endpoint) :
    s.consultFrom r refusals (front ++ back) = s.consultFrom r (refusals ++ Endpoint.refusals r front) back := by
  induction front generalizing refusals with
  | nil => rw [Endpoint.refusals, List.filterMap_nil, List.append_nil, List.nil_append]
  | cons e rest ih =>
    have hrest := ih fun e' he' => h e' (List.mem_cons_of_mem _ he')
    cases hcheck : e.check r with
    | ok u => exact absurd hcheck (h e List.mem_cons_self)
    | error refusal =>
      have hrefusals : Endpoint.refusals r (e :: rest) = refusal :: Endpoint.refusals r rest := by
        simp only [Endpoint.refusals, List.filterMap_cons, hcheck]
      rw [List.cons_append, Service.consultFrom, hcheck]
      dsimp only
      rw [hrest, hrefusals, List.append_assoc, List.singleton_append]

theorem Endpoint.exists_split {e : Endpoint} (hcheck : e.check r = .ok ()) : ∃ front back : List Endpoint,
    Endpoint.all = front ++ e :: back ∧ ∀ e' ∈ front ++ back, e'.check r ≠ .ok () := by
  have hnodup : Endpoint.all.Nodup := by decide
  obtain ⟨front, back, hall⟩ := List.append_of_mem (Endpoint.mem_all e)
  rw [hall] at hnodup
  refine ⟨front, back, hall, ?_⟩
  intro e' he' hcheck'
  obtain rfl := Endpoint.eq_of_check hcheck' hcheck
  have hsame := List.perm_middle.nodup_iff.mp hnodup
  exact (List.nodup_cons.mp hsame).1 he'

/-- What a request comes to at the endpoint that admits it; if it is refused there, then by all. -/
theorem consult_at {e : Endpoint} {front back : List Endpoint} (hcheck : e.check r = .ok ())
    (hall : Endpoint.all = front ++ e :: back) (hothers : ∀ e' ∈ front ++ back, e'.check r ≠ .ok ()) :
    s.consult r = (s.approach r e).bind fun
      | .ok x => .done x
      | .error refusal =>
        (Service.answerRefusals (Endpoint.refusals r front ++ refusal :: Endpoint.refusals r back)).bind fun response =>
          .done (.inl response) := by
  rw [Service.consult, hall, consultFrom_append fun e' he' => hothers e' (List.mem_append_left _ he'), List.nil_append,
    Service.consultFrom, hcheck]
  refine congrArg (Script.bind _) (funext fun result => ?_)
  cases result with
  | ok x => rfl
  | error refusal =>
    have hback := consultFrom_append (s := s) (fun e' he' => hothers e' (List.mem_append_right front he'))
      (Endpoint.refusals r front ++ [refusal]) []
    rw [List.append_nil] at hback
    dsimp only
    rw [hback, List.append_assoc, List.singleton_append]
    rfl

theorem consult_of_check {e : Endpoint} (hcheck : e.check r = .ok ()) : ∃ front back : List Refusal,
    s.consult r = (s.approach r e).bind fun
      | .ok x => .done x
      | .error refusal =>
        (Service.answerRefusals (front ++ refusal :: back)).bind fun response => .done (.inl response) := by
  obtain ⟨front, back, hall, hothers⟩ := Endpoint.exists_split hcheck
  exact ⟨_, _, consult_at hcheck hall hothers⟩

theorem respond_of_token {e : Endpoint} {call : TokenId → Bytes → Command} {id : TokenId} {signal : Bytes}
    (hcheck : e.check r = .ok ()) (hcall : s.approach r e = s.approachToken r call) (hid : r.refreshToken? = some id)
    (hsignal : r.signal? = some signal) :
    s.respond r = (s.engine.serve (call id signal)).run.bind (s.reply (call id signal)) := by
  obtain ⟨front, back, hconsult⟩ := consult_of_check (s := s) hcheck
  rw [Service.respond_eq, hconsult, hcall, Service.approachToken, hid, hsignal]
  rfl

/-! ### What refusals are told -/

namespace Refusal

/-- What is told about a request that the endpoint meant for it refuses. An endpoint of another method has refused it
as well, and that counts unless the content was malformed. -/
def verdict : Refusal → ErrorCode
  | .body => .badRequest
  | .invalidHeader => .badRequest
  | _ => .methodNotAllowed

theorem code_of_mem_method {refusals : List Refusal} (h : .method ∈ refusals) : code refusals =
    if .body ∈ refusals ∨ .invalidHeader ∈ refusals then .badRequest else .methodNotAllowed := by
  have hall : refusals.all (· == .notFound) = false := List.all_eq_false.mpr ⟨.method, h, by decide⟩
  have hmethod : refusals.contains .method = true := List.contains_iff_mem.mpr h
  simp only [code, hall, hmethod, Bool.false_eq_true, ite_false, ite_true, Bool.or_eq_true, List.contains_iff_mem]

end Refusal

namespace Endpoint

theorem check_eq_error {e : Endpoint} {refusal : Refusal} (h : e.check r = .error refusal) :
    refusal = .method ∨ refusal = .notFound := by
  unfold check at h
  split at h
  · exact Or.inl (Except.error.inj h).symm
  · split at h
    · exact Or.inr (Except.error.inj h).symm
    · cases h

theorem mem_refusals {endpoints : List Endpoint} {refusal : Refusal} :
    refusal ∈ refusals r endpoints ↔ ∃ e ∈ endpoints, e.check r = .error refusal := by
  rw [refusals, List.mem_filterMap]
  refine exists_congr fun e => and_congr_right fun _ => ?_
  cases e.check r with
  | ok u => simp only [reduceCtorEq]
  | error refusal' => simp only [Option.some.injEq, Except.error.injEq]

theorem not_mem_refusals (r : Request) (endpoints : List Endpoint) : .body ∉ refusals r endpoints ∧
    .invalidHeader ∉ refusals r endpoints := by
  constructor <;> intro hmem <;> obtain ⟨e, -, he⟩ := mem_refusals.mp hmem <;> simpa using check_eq_error he

theorem exists_check_eq_method (r : Request) : ∃ e : Endpoint, e.check r = .error .method := by
  by_cases h : r.method = session.method
  · exact ⟨login, if_pos fun hlogin => absurd (h.symm.trans hlogin) (by decide)⟩
  · exact ⟨session, if_pos h⟩

theorem code_refusals_all (r : Request) : Refusal.code (refusals r all) = .methodNotAllowed := by
  obtain ⟨e, he⟩ := exists_check_eq_method r
  have hnone := not_mem_refusals r all
  rw [Refusal.code_of_mem_method (mem_refusals.mpr ⟨e, mem_all e, he⟩), if_neg (not_or.mpr hnone)]

theorem code_refusals_at {e : Endpoint} {front back : List Endpoint} (hcheck : e.check r = .ok ())
    (hall : all = front ++ e :: back) (refusal : Refusal) :
    Refusal.code (refusals r front ++ refusal :: refusals r back) = refusal.verdict := by
  have hmem : ∀ x, x ∈ refusals r front ++ refusal :: refusals r back ↔
      x ∈ refusals r front ∨ x = refusal ∨ x ∈ refusals r back := fun x => by
    rw [List.mem_append, List.mem_cons]
  obtain ⟨e', he'⟩ := exists_check_eq_method r
  have hmethod : .method ∈ refusals r front ++ refusal :: refusals r back := by
    have hplace := mem_all e'
    rw [hall, List.mem_append, List.mem_cons] at hplace
    rcases hplace with hfront | rfl | hback
    · exact (hmem _).mpr (Or.inl (mem_refusals.mpr ⟨e', hfront, he'⟩))
    · exact nomatch he'.symm.trans hcheck
    · exact (hmem _).mpr (Or.inr (Or.inr (mem_refusals.mpr ⟨e', hback, he'⟩)))
  have hfront := not_mem_refusals r front
  have hback := not_mem_refusals r back
  rw [Refusal.code_of_mem_method hmethod]
  simp only [hmem, hfront, hback, false_or, or_false]
  cases refusal <;> rfl

end Endpoint

/-! ### Equations for a response -/

namespace Service

theorem answerRefusals_of_code {refusals : List Refusal} (h : Refusal.code refusals ≠ .internalError) :
    answerRefusals refusals = .done (.failure (Refusal.code refusals) none) := by
  simp only [answerRefusals, h, ite_false]
  rfl

theorem respond_of_unserved (h : ∀ e : Endpoint, e.check r ≠ .ok ()) :
    s.respond r = .done (.failure .methodNotAllowed none) := by
  have hcode := Endpoint.code_refusals_all r
  have hinternal : Refusal.code (Endpoint.refusals r Endpoint.all) ≠ .internalError := by
    rw [hcode]
    decide
  have hconsult : s.consultFrom r [] (Endpoint.all ++ []) = _ := consultFrom_append (fun e _ => h e) [] []
  rw [List.append_nil, List.nil_append] at hconsult
  rw [respond_eq, consult, hconsult, consultFrom, answerRefusals_of_code hinternal, hcode]
  rfl

/-- A request that an endpoint admits is answered there; if it is refused there, the refusal is told. -/
theorem respond_of_check {e : Endpoint} (hcheck : e.check r = .ok ()) : s.respond r = (s.handle e r).bind fun
    | .ok response => .done response
    | .error refusal => .done (.failure refusal.verdict none) := by
  obtain ⟨front, back, hall, hothers⟩ := Endpoint.exists_split hcheck
  rw [respond_eq, consult_at hcheck hall hothers, handle_eq, Script.bind_assoc, Script.bind_assoc]
  refine congrArg (Script.bind _) (funext fun result => ?_)
  cases result with
  | ok x =>
    show s.conclude x = ((s.conclude x).bind fun response => .done (.ok response : Except Refusal Response)).bind _
    rw [Script.bind_assoc]
    exact (Script.bind_pure _).symm
  | error refusal =>
    have hcode := Endpoint.code_refusals_at hcheck hall refusal
    have hinternal : refusal.verdict ≠ .internalError := by cases refusal <;> decide
    have hanswer := answerRefusals_of_code (hcode ▸ hinternal)
    rw [hcode] at hanswer
    dsimp only
    rw [hanswer]
    rfl

end Service

end SessionWarden
