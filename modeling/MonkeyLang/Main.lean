import MonkeyLang.Repl

namespace MonkeyLang.Terminal

/-- A line of bytes with its line break; nothing at the end of the input. -/
partial def readLine (input : IO.FS.Stream) (line : ByteArray) : IO ByteArray := do
  let b ← input.read 1
  if b.isEmpty then return line
  let line := line ++ b
  if b.data = #[10] then return line
  readLine input line

def stop (e : Repl.Ending) : IO Unit := do
  match e.error? with
  | none => return
  | some error => (← IO.getStderr).putStr (Repl.stopped error)

partial def loop (level : Log.Level) (s : ScopeId) (w : World) : IO Unit := do
  let out ← IO.getStdout
  out.putStr Repl.prompt
  out.flush
  let line ← readLine (← IO.getStdin) ByteArray.empty
  if line.isEmpty then return
  match Repl.decode line.toList with
  | none => stop .notText
  | some text =>
      let (result, w) := Repl.turn Eval.ample s text { w with events := #[] }
      (← IO.getStderr).putStr (Log.text level w.events)
      match result with
      | .ok t =>
          out.putStr t.printed
          out.putStr t.answer
          loop level s w
      | .error _ => stop .tooDeep

end MonkeyLang.Terminal

open MonkeyLang

def main : IO Unit := do
  let level := ((← IO.getEnv "MONKEY_LOG").map Log.Level.ofText).getD .off
  (← IO.getStdout).putStr Repl.greeting
  let (w, s) := Repl.fresh
  Terminal.loop level s w
