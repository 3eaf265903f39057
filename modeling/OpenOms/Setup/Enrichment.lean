import OpenOms.Library.Lists
import OpenOms.Setup.Catalog
import OpenOms.Symbology.Batches

/-!
The OpenFIGI enricher over the identifier: one batch for the SPOT definitions, its
answers stamped back into their places. Over a provider that answers each job alone it
is the enricher of the catalog.
-/
namespace OmsEnrichment
open OmsCatalog
open OmsSymbology (InstrumentQuery Identifier IdentityCache Resolution MappingJob MappingResult
  DisambiguationPolicy Answers answered identify_batch_answers)

variable {C : Type} [IdentityCache C]

def query (ticker : String) (exchCode : Option String) : InstrumentQuery :=
  { InstrumentQuery.default with ticker := some ticker, exchCode }

def queryOf (d : InstrumentDef) : InstrumentQuery := query d.symbol (openfigiExchCode d.venue)

def isSpot (d : InstrumentDef) : Bool := d.instrumentClass = "SPOT"

def identityOf : Resolution → Option InstrumentIdentity
  | .resolved identity => some ⟨identity.figi, identity.compositeFigi⟩
  | _ => none

def stamp (at_ : List InstrumentDef × List Key) : Nat × Resolution → List InstrumentDef × List Key
  | (i, res) =>
    match identityOf res, at_.1[i]? with
    | some identity, some d => (at_.1.set i (d.stamped identity), at_.2 ++ [d.key])
    | _, _ => at_

def enrich (engine : Identifier C) (defs : List InstrumentDef) :
    Option (Except String (List InstrumentDef × List Key) × Identifier C) :=
  let idx := (defs.zipIdx.filter fun at_ => isSpot at_.1).map Prod.snd
  if idx.isEmpty then some (.ok (defs, []), engine)
  else do
    let queries := idx.filterMap fun i => defs[i]?.map queryOf
    match ← engine.identifyBatch queries with
    | (.error e, engine) => return (.error s!"provider request failed: {e.toString}", engine)
    | (.ok results, engine) => return (.ok ((idx.zip results).foldl stamp (defs, [])), engine)

def outside (answer : MappingJob → MappingResult) (policy : DisambiguationPolicy) (cache : C)
    (atTimeZone : Int → Int → String → Option Int) : Outside where
  identify ticker exchCode := .ok (identityOf (answered answer policy cache (query ticker exchCode)))
  atTimeZone := atTimeZone

/-- A definition after its own answer, and whether it had one. -/
def resolved (res : InstrumentDef → Resolution) (d : InstrumentDef) : InstrumentDef × Bool :=
  match if isSpot d then identityOf (res d) else none with
  | some identity => (d.stamped identity, true)
  | none => (d, false)

theorem stamps_in_place (res : InstrumentDef → Resolution) (done rest : List InstrumentDef)
    (keys : List Key) :
    (((rest.zipIdx done.length).filter fun at_ => isSpot at_.1).map
        fun at_ => (at_.2, res at_.1)).foldl stamp (done ++ rest, keys) =
      (done ++ (rest.map (resolved res)).map Prod.fst,
        keys ++ ((rest.map (resolved res)).filter Prod.snd).map fun at_ => at_.1.key) := by
  induction rest generalizing done keys with
  | nil => simp
  | cons d rest ih =>
    have here : (done ++ d :: rest)[done.length]? = some d := by simp
    have set_ : ∀ d', (done ++ d :: rest).set done.length d' = (done ++ [d']) ++ rest := by
      intro d'
      rw [List.set_append_right _ _ (Nat.le_refl _)]
      simp
    have kept := ih (done ++ [d]) keys
    rw [List.length_append, List.length_singleton] at kept
    simp only [List.append_assoc, List.singleton_append] at kept
    rw [List.zipIdx_cons, List.filter_cons]
    cases spot : isSpot d with
    | false =>
      have same : resolved res d = (d, false) := by simp [resolved, spot]
      simp only [Bool.false_eq_true, if_false]
      rw [kept]
      simp [same]
    | true =>
      simp only [if_true, List.map_cons, List.foldl_cons, stamp, here]
      cases known : identityOf (res d) with
      | none =>
        have same : resolved res d = (d, false) := by simp [resolved, spot, known]
        dsimp only
        rw [kept]
        simp [same]
      | some identity =>
        have stamped : resolved res d = (d.stamped identity, true) := by
          simp [resolved, spot, known]
        have next := ih (done ++ [d.stamped identity]) (keys ++ [d.key])
        rw [List.length_append, List.length_singleton] at next
        dsimp only
        rw [set_, next]
        simp [stamped]
        rfl

theorem resolve_answers {o : Outside} {res : InstrumentDef → Resolution} {d : InstrumentDef}
    (knows : d.identity o = .ok (identityOf (res d))) : resolve o d = .ok (resolved res d) := by
  unfold resolve resolved isSpot
  by_cases spot : d.instrumentClass = "SPOT"
  · simp only [spot, if_true, decide_true, knows]
    cases identityOf (res d) <;> rfl
  · simp only [spot, if_false, decide_false, Bool.false_eq_true]
    rfl

theorem enrich_refines {engine : Identifier C} {answer : MappingJob → MappingResult}
    (answers : Answers engine.provider answer) (atTimeZone : Int → Int → String → Option Int)
    (defs : List InstrumentDef) :
    (enrich engine defs).map Prod.fst =
      some (openFigiEnricher (outside answer engine.policy engine.cache atTimeZone) defs) := by
  let res : InstrumentDef → Resolution := fun d => answered answer engine.policy engine.cache (queryOf d)
  let spots := defs.zipIdx.filter fun at_ => isSpot at_.1
  have all : defs.mapM (resolve (outside answer engine.policy engine.cache atTimeZone)) =
      .ok (defs.map (resolved res)) := by
    refine Lists.map_m_ok.mpr (List.forall₂_map_right_iff.mpr (List.forall₂_same.mpr fun d _ => ?_))
    exact resolve_answers rfl
  have stamped := stamps_in_place res [] defs []
  simp only [List.length_nil, List.nil_append] at stamped
  have enricher : openFigiEnricher (outside answer engine.policy engine.cache atTimeZone) defs =
      .ok ((spots.map fun at_ => (at_.2, res at_.1)).foldl stamp (defs, [])) := by
    rw [stamped, openFigiEnricher, all]
    rfl
  have queries : (spots.map Prod.snd).filterMap (fun i => defs[i]?.map queryOf) =
      spots.map fun at_ => queryOf at_.1 := by
    rw [List.filterMap_map, ← List.filterMap_eq_map]
    refine List.filterMap_congr fun at_ member => ?_
    have there : defs[at_.2]? = some at_.1 :=
      List.mk_mem_zipIdx_iff_getElem?.mp (List.mem_filter.mp member).1
    simp [there]
  have zipped : (spots.map Prod.snd).zip ((spots.map fun at_ => queryOf at_.1).map
      (answered answer engine.policy engine.cache)) = spots.map fun at_ => (at_.2, res at_.1) := by
    rw [List.map_map, List.zip_map']
    rfl
  rw [enricher]
  unfold enrich
  dsimp only
  split
  · rename_i nobody
    rw [List.isEmpty_iff, List.map_eq_nil_iff] at nobody
    have none_ : spots = [] := nobody
    rw [none_]
    rfl
  · rw [queries, identify_batch_answers answers]
    exact congrArg (fun answered => some (Except.ok (answered.foldl stamp (defs, [])))) zipped

end OmsEnrichment
