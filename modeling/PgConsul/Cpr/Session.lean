import PgConsul.Cpr.Parameters
import PgConsul.Foundations.CString

/-! # Issuing a request

`cpr::Get` hands a URL, a timeout and a header to curl and makes a `Response` of what comes back.
What curl does with a request, the redirects it follows included, is the network's; the model takes it
as a function.
-/
namespace PgConsul.Cpr
set_option autoImplicit false
open Foundations

/-- What curl is asked to do. `url` is the C string given for `CURLOPT_URL`, `timeout` the
milliseconds given for `CURLOPT_TIMEOUT_MS`. -/
structure Request where
  url : Bytes
  header : List (Bytes × Bytes)
  timeout : ℕ
deriving DecidableEq

/-- What comes back: a response code (0 without an answer) and a body, or an answer whose headers or
cookies make the code that reads them throw. -/
inductive Transfer where
  | answered (responseCode : ℤ) (body : Bytes)
  | threw (what : Bytes)
deriving DecidableEq

abbrev Network := Request → Transfer

structure Response where
  statusCode : ℤ
  text : Bytes
deriving DecidableEq

/-- `util::parseResponse`: one newline at the end is dropped. -/
def parseResponse (response : Bytes) : Bytes :=
  if response.getLast? = some (chr '\n') then response.dropLast else response

/-- The URL of `Session::Impl::makeRequest`. -/
def requestUrl (url content : Bytes) : Bytes :=
  if content ≠ [] then cStr (url ++ [chr '?'] ++ content) else cStr url

/-- `cpr::Get(Url, Header, Timeout, Parameters)`: the request issued, and the response or the
`what()` of the exception. -/
def get (network : Network) (url : Bytes) (header : List (Bytes × Bytes)) (timeout : ℕ)
    (content : Bytes) : Request × Except Bytes Response :=
  let request : Request := ⟨requestUrl url content, header, timeout⟩
  match network request with
  | .answered responseCode body => (request, .ok ⟨responseCode, parseResponse body⟩)
  | .threw what => (request, .error what)

def connectionClose : List (Bytes × Bytes) := [(ascii "Connection", ascii "close")]

@[simp] theorem get_request (network : Network) (url : Bytes) (header : List (Bytes × Bytes))
    (timeout : ℕ) (content : Bytes) :
    (get network url header timeout content).1 = ⟨requestUrl url content, header, timeout⟩ := by
  unfold get
  simp only
  cases network ⟨requestUrl url content, header, timeout⟩ <;> rfl

theorem get_answered {network : Network} {url : Bytes} {header : List (Bytes × Bytes)}
    {timeout : ℕ} {content : Bytes} {responseCode : ℤ} {body : Bytes}
    (h : network (get network url header timeout content).1 = .answered responseCode body) :
    (get network url header timeout content).2 = .ok ⟨responseCode, parseResponse body⟩ := by
  rw [get_request] at h
  unfold get
  simp only [h]

end PgConsul.Cpr
