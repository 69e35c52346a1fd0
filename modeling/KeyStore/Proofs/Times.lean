import Mathlib.Data.List.Forall2
import KeyStore.Proofs.Run

/-! Times. How long commands take is counted in the statistics and seen in the listing of them, and
nowhere else: engines that differ in these times only answer alike and stay so. -/
namespace KeyStore
open Std

def Tally.untimed (t : Tally) : Tally := { t with usec := 0 }

namespace Stats

def untimed (s : Stats) : Stats := s.map fun _ t => t.untimed

theorem getElem?_untimed (s : Stats) (name : String) : s.untimed[name]? = s[name]?.map Tally.untimed :=
  ExtTreeMap.getElem?_map

theorem untimed_record (s : Stats) (name : String) (usec : Nat) (failed : Bool) :
    (s.record name usec failed).untimed = s.untimed.record name 0 failed := by
  apply ExtTreeMap.ext_getElem?
  intro other
  rw [getElem?_untimed, record, record, ExtTreeMap.getElem?_insert, ExtTreeMap.getElem?_insert,
    getElem?_untimed, getElem?_untimed]
  by_cases h : name = other
  · subst h
    cases s[name]? <;> simp [Tally.record, Tally.untimed]
  · simp [h]

theorem totalCalls_untimed (s : Stats) : s.untimed.totalCalls = s.totalCalls := by
  rw [totalCalls, totalCalls, untimed, ExtTreeMap.foldl_eq_foldl_toList, ExtTreeMap.toList_map,
    ExtTreeMap.foldl_eq_foldl_toList, List.foldl_map]
  rfl

end Stats

namespace Engine

/-- The same engine, up to the times in its statistics. -/
structure SameButTimes (e e' : Engine Q) : Prop where
  keyspace : e.keyspace = e'.keyspace
  broker : e.broker = e'.broker
  config : e.config = e'.config
  stats : e.stats.untimed = e'.stats.untimed

/-- The same answer to the same command; in a listing of the command statistics the times may differ. -/
def SameAnswer (a a' : Answer) : Prop :=
  a.1 = a'.1 ∧ (a.2 = a'.2 ∨ ∃ topic before s s', a.1 = .ok (.onServer (.info topic)) ∧
    Stats.untimed s = Stats.untimed s' ∧
    a.2 = .ok (.text (before ++ s.render)) ∧ a'.2 = .ok (.text (before ++ s'.render)))

theorem SameAnswer.isOk_eq {a a' : Answer} (h : SameAnswer a a') : a.2.isOk = a'.2.isOk := by
  obtain ⟨-, heq | ⟨topic, before, s, s', -, -, htext, htext'⟩⟩ := h
  · rw [heq]
  · rw [htext, htext']
    rfl

namespace SameButTimes
variable {e e' : Engine Q}

theorem refl (e : Engine Q) : SameButTimes e e := ⟨rfl, rfl, rfl, rfl⟩

theorem info (h : SameButTimes e e') (topic : Option String) :
    e.info topic = e'.info topic ∨
      ∃ before, e.info topic = before ++ e.stats.render ∧ e'.info topic = before ++ e'.stats.render := by
  have hcalls : e.stats.totalCalls = e'.stats.totalCalls := by
    rw [← Stats.totalCalls_untimed, h.stats, Stats.totalCalls_untimed]
  have hkeyspace : e.keyspaceInfo = e'.keyspaceInfo := by
    unfold keyspaceInfo
    rw [h.keyspace]
  have hstats : e.statsInfo = e'.statsInfo := by
    unfold statsInfo
    rw [h.keyspace, hcalls]
  have hpubsub : e.pubsubInfo = e'.pubsubInfo := by
    unfold pubsubInfo
    rw [h.broker]
  simp only [Engine.info, hkeyspace, hstats, hpubsub]
  by_cases hshows : (topic.all fun t => ["all", "everything", "default"].contains t) ||
      topic == some "commandstats"
  · right
    rw [if_pos hshows, if_pos hshows]
    exact ⟨_, rfl, rfl⟩
  · left
    rw [if_neg hshows, if_neg hshows]

theorem perform (h : SameButTimes e e') (c : Command) :
    SameAnswer (.ok c, (e.perform c).1) (.ok c, (e'.perform c).1) ∧
      SameButTimes (e.perform c).2 (e'.perform c).2 := by
  by_cases hinfo : ∃ topic, c = .onServer (.info topic)
  · obtain ⟨topic, rfl⟩ := hinfo
    refine ⟨⟨rfl, ?_⟩, h⟩
    rcases h.info topic with heq | ⟨before, htext, htext'⟩
    · exact .inl (congrArg (fun t => Except.ok (Reply.text t)) heq)
    · refine .inr ⟨topic, before, e.stats, e'.stats, rfl, h.stats, ?_, ?_⟩
      · exact congrArg (fun t => Except.ok (Reply.text t)) htext
      · exact congrArg (fun t => Except.ok (Reply.text t)) htext'
  · obtain ⟨keyspace, broker, config, stats⟩ := e
    obtain ⟨keyspace', broker', config', stats'⟩ := e'
    obtain ⟨rfl, rfl, rfl, hstats⟩ := h
    cases c with
    | onKeys c => exact ⟨⟨rfl, .inl rfl⟩, ⟨rfl, rfl, rfl, hstats⟩⟩
    | onServer c =>
      cases c with
      | info topic => exact absurd ⟨topic, rfl⟩ hinfo
      | ping message => cases message <;> exact ⟨⟨rfl, .inl rfl⟩, ⟨rfl, rfl, rfl, hstats⟩⟩
      | configSet parameter value =>
        simp only [Engine.perform, serve]
        split <;> exact ⟨⟨rfl, .inl rfl⟩, ⟨rfl, rfl, rfl, hstats⟩⟩
      | configResetStat => exact ⟨⟨rfl, .inl rfl⟩, .refl _⟩
      | _ => exact ⟨⟨rfl, .inl rfl⟩, ⟨rfl, rfl, rfl, hstats⟩⟩

theorem executeParsed (h : SameButTimes e e') (c : Except Error Command) (nanos nanos' : Nat) :
    SameAnswer (c, (e.executeParsed c nanos).1) (c, (e'.executeParsed c nanos').1) ∧
      SameButTimes (e.executeParsed c nanos).2 (e'.executeParsed c nanos').2 := by
  cases c with
  | error err => exact ⟨⟨rfl, .inl rfl⟩, h⟩
  | ok c =>
    obtain ⟨hanswer, hengine⟩ := h.perform c
    refine ⟨hanswer, hengine.keyspace, hengine.broker, hengine.config, ?_⟩
    have hok : (e.perform c).1.isOk = (e'.perform c).1.isOk := hanswer.isOk_eq
    have hstats : (e.perform c).2.stats.untimed = (e'.perform c).2.stats.untimed := hengine.stats
    simp only [Engine.executeParsed, execute, record, Stats.untimed_record, hok, hstats]

theorem runFrom (cs : List (Except Error Command)) (h : SameButTimes e e') (nanos nanos' : Nat → Nat)
    (i : Nat) :
    List.Forall₂ SameAnswer (cs.zip (Batch.runFrom nanos i cs e).1)
      (cs.zip (Batch.runFrom nanos' i cs e').1) ∧
    SameButTimes (Batch.runFrom nanos i cs e).2 (Batch.runFrom nanos' i cs e').2 := by
  induction cs generalizing i e e' with
  | nil => exact ⟨.nil, h⟩
  | cons c cs ih =>
    obtain ⟨hanswer, hnext⟩ := h.executeParsed c (nanos i) (nanos' i)
    obtain ⟨hanswers, hend⟩ := ih hnext (i + 1)
    exact ⟨.cons hanswer hanswers, hend⟩

end SameButTimes
end Engine
end KeyStore
