import PhpAgent.Lib.Flatbuf
import PhpAgent.Util.Object

/-! The readers that the flatbuffers compiler generates for the messages of an agent, after the package
`protocol`. A panic is none. Numbers are the bits of their types. -/
namespace PhpAgent.Protocol

open Flatbuf

variable (fb : Runtime)

/-! ### `MessageBody` -/

def messageBodyNONE : ℕ := 0
def messageBodyApp : ℕ := 1
def messageBodyAppReply : ℕ := 2
def messageBodyTransaction : ℕ := 3
def messageBodySpanBatch : ℕ := 4

namespace Message

/-- `GetRootAsMessage(buf, 0)`. -/
def getRoot (buf : Bytes) : Option Table := (fb.getUOffsetT buf).map fun n => ⟨buf,n⟩

def agentRunId (t : Table) : Option (Option Bytes) := readBytes fb t 4
def dataType (t : Table) : Option ℕ := readNumber fb 1 t 6
def data (t : Table) : Option (Option Table) := readUnion fb t 8

end Message

namespace SpanBatch

def count (t : Table) : Option ℕ := readNumber fb 8 t 4
def encodedBytes (t : Table) : Option (Option Bytes) := readBytes fb t 6

end SpanBatch

namespace Event

def data (t : Table) : Option (Option Bytes) := readBytes fb t 4

end Event

namespace Error

def priority (t : Table) : Option ℕ := readNumber fb 4 t 4
def data (t : Table) : Option (Option Bytes) := readBytes fb t 6

end Error

namespace Metric

def name (t : Table) : Option (Option Bytes) := readBytes fb t 4
def data (t : Table) : Option (Option Table) := readStruct fb t 6

end Metric

namespace MetricData

/-! The numbers of a struct are at fixed places. -/

def count (t : Table) : Option ℕ := fb.get 8 t (wrap (t.pos+0))
def total (t : Table) : Option ℕ := fb.get 8 t (wrap (t.pos+8))
def exclusive (t : Table) : Option ℕ := fb.get 8 t (wrap (t.pos+16))
def min (t : Table) : Option ℕ := fb.get 8 t (wrap (t.pos+24))
def max (t : Table) : Option ℕ := fb.get 8 t (wrap (t.pos+32))
def sumSquares (t : Table) : Option ℕ := fb.get 8 t (wrap (t.pos+40))
def «scoped» (t : Table) : Option ℕ := fb.get 1 t (wrap (t.pos+48))
def forced (t : Table) : Option ℕ := fb.get 1 t (wrap (t.pos+49))

end MetricData

namespace SlowSQL

def id (t : Table) : Option ℕ := readNumber fb 4 t 4
def count (t : Table) : Option ℕ := readNumber fb 4 t 6
def totalMicros (t : Table) : Option ℕ := readNumber fb 8 t 8
def minMicros (t : Table) : Option ℕ := readNumber fb 8 t 10
def maxMicros (t : Table) : Option ℕ := readNumber fb 8 t 12
def metric (t : Table) : Option (Option Bytes) := readBytes fb t 14
def query (t : Table) : Option (Option Bytes) := readBytes fb t 16
def params (t : Table) : Option (Option Bytes) := readBytes fb t 18

end SlowSQL

namespace Trace

def timestamp (t : Table) : Option ℕ := readNumber fb 8 t 4
def duration (t : Table) : Option ℕ := readNumber fb 8 t 6
def guid (t : Table) : Option (Option Bytes) := readBytes fb t 8
def forcePersist (t : Table) : Option ℕ := readNumber fb 1 t 10
def data (t : Table) : Option (Option Bytes) := readBytes fb t 12

end Trace

namespace Transaction

def name (t : Table) : Option (Option Bytes) := readBytes fb t 4
def uri (t : Table) : Option (Option Bytes) := readBytes fb t 6
def syntheticsResourceId (t : Table) : Option (Option Bytes) := readBytes fb t 8
def pid (t : Table) : Option ℕ := readNumber fb 4 t 10
def txnEvent (t : Table) : Option (Option Table) := readTable fb t 12
def metrics (t : Table) (j : ℕ) : Option (Option Table) := readElement fb t 14 j
def metricsLength (t : Table) : Option ℕ := readLength fb t 14
def errors (t : Table) (j : ℕ) : Option (Option Table) := readElement fb t 16 j
def errorsLength (t : Table) : Option ℕ := readLength fb t 16
def slowSqls (t : Table) (j : ℕ) : Option (Option Table) := readElement fb t 18 j
def slowSqlsLength (t : Table) : Option ℕ := readLength fb t 18
def customEvents (t : Table) (j : ℕ) : Option (Option Table) := readElement fb t 20 j
def customEventsLength (t : Table) : Option ℕ := readLength fb t 20
def trace (t : Table) : Option (Option Table) := readTable fb t 22
def errorEvents (t : Table) (j : ℕ) : Option (Option Table) := readElement fb t 24 j
def errorEventsLength (t : Table) : Option ℕ := readLength fb t 24
def samplingPriority (t : Table) : Option ℕ := readNumber fb 8 t 26
def spanEvents (t : Table) (j : ℕ) : Option (Option Table) := readElement fb t 28 j
def spanEventsLength (t : Table) : Option ℕ := readLength fb t 28
def logEvents (t : Table) (j : ℕ) : Option (Option Table) := readElement fb t 30 j
def logEventsLength (t : Table) : Option ℕ := readLength fb t 30
def phpPackages (t : Table) : Option (Option Table) := readTable fb t 32
def logForwardingLabels (t : Table) : Option (Option Table) := readTable fb t 34

end Transaction

namespace App

def license (t : Table) : Option (Option Bytes) := readBytes fb t 4
def appName (t : Table) : Option (Option Bytes) := readBytes fb t 6
def agentLanguage (t : Table) : Option (Option Bytes) := readBytes fb t 8
def agentVersion (t : Table) : Option (Option Bytes) := readBytes fb t 10
def highSecurity (t : Table) : Option ℕ := readNumber fb 1 t 12
def redirectCollector (t : Table) : Option (Option Bytes) := readBytes fb t 14
def environment (t : Table) : Option (Option Bytes) := readBytes fb t 16
def settings (t : Table) : Option (Option Bytes) := readBytes fb t 18
def labels (t : Table) : Option (Option Bytes) := readBytes fb t 20
def displayHost (t : Table) : Option (Option Bytes) := readBytes fb t 22
def securityPolicyToken (t : Table) : Option (Option Bytes) := readBytes fb t 24
def supportedSecurityPolicies (t : Table) : Option (Option Bytes) := readBytes fb t 26
def host (t : Table) : Option (Option Bytes) := readBytes fb t 28
def traceObserverHost (t : Table) : Option (Option Bytes) := readBytes fb t 30
def traceObserverPort (t : Table) : Option ℕ := readNumber fb 2 t 32
def spanQueueSize (t : Table) : Option ℕ := readNumber fb 8 t 34
def spanEventsMaxSamplesStored (t : Table) : Option ℕ := readNumber fb 8 t 36
def metadata (t : Table) : Option (Option Bytes) := readBytes fb t 38
def logEventsMaxSamplesStored (t : Table) : Option ℕ := readNumber fb 8 t 40
def customEventsMaxSamplesStored (t : Table) : Option ℕ := readNumber fb 8 t 42
def dockerId (t : Table) : Option (Option Bytes) := readBytes fb t 44

end App
end PhpAgent.Protocol
